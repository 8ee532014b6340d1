import Mathlib.Algebra.Order.Group.Nat
import Mathlib.Algebra.Order.Field.Basic
import Mathlib.Algebra.Order.Field.Rat
import Mathlib.Tactic.FieldSimp
import Mathlib.Tactic.Linarith
import Mathlib.Tactic.Ring
import ZeusLe.AudioSync

/-! The instants at which the nodes sample, when each of them keeps its phase. -/

namespace ZeusLe.SamplingGrid

open ZeusLe.Audio
open ZeusLe.AudioSync
open ZeusLe.FreqControl
open ZeusLe.SyncTimer

theorem toNat_samplePeriod : samplePeriod.toNat = 1431655765333 := by
  decide

theorem toNat_phaseTarget (theta : UInt64) :
    (phaseTarget theta).toNat =
      (theta.toNat + 715827882666) % 18446744073709551616 / 1431655765333 * 1431655765333 := by
  have hhalf : (samplePeriod / 2).toNat = 715827882666 := by decide
  simp only [phaseTarget, quDivRoundClosest, UInt64.toNat_mul, UInt64.toNat_div, UInt64.toNat_add,
    hhalf, toNat_samplePeriod]
  omega

theorem toInt_phaseDiffSigned (a b : UInt64) :
    (phaseDiffSigned a b).toInt = ((a.toNat : Int) - b.toNat).bmod 18446744073709551616 := by
  rw [phaseDiffSigned, ← Int64.toInt_toBitVec, UInt64.toBitVec_toInt64, UInt64.toBitVec_sub,
    BitVec.toInt_sub]
  simp only [BitVec.toInt_eq_toNat_bmod, UInt64.toNat_toBitVec, Int.bmod_sub_bmod, Int.sub_bmod_bmod,
    Nat.reducePow]

theorem toNat_ofInt (x : Int) : ((UInt64.ofInt x).toNat : Int) = x % 18446744073709551616 := by
  rw [UInt64.ofInt, UInt64.toNat_ofNat']
  omega

theorem ofInt_sub (x y : Int) : UInt64.ofInt (x - y) = UInt64.ofInt x - UInt64.ofInt y := by
  rw [Int.sub_eq_add_neg, UInt64.ofInt_add, UInt64.ofInt_neg, UInt64.sub_eq_add_neg]

/-- A node that sets its phase target: the block, the state before it, and the
unwrapped times in units of 2⁻³² ticks. -/
structure PhaseInit where
  timer : TimerState
  audio : AudioData
  time : BlockTime
  i2sTime : Int
  centralTime : Int
  reset : audio.freqEst.status = .reset
  i2sTime_eq : time.i2sTime = UInt64.ofInt i2sTime
  centralTime_eq :
    syncTimerLocalToCentral timer (quFromInt time.refTime) = (true, UInt64.ofInt centralTime)

namespace PhaseInit

def targetTheta (n : PhaseInit) : UInt64 :=
  (audioSyncUpdate n.timer n.time n.audio).2.targetTheta

/-- The unwrapped phase at the block. -/
def phase (n : PhaseInit) : Int :=
  n.i2sTime - n.centralTime

/-- The unwrapped phase that the controller moves to and keeps. -/
def heldPhase (n : PhaseInit) : Int :=
  n.phase + (phaseDiffSigned n.targetTheta (UInt64.ofInt n.phase)).toInt

/-- How often the rounded phase has wrapped. -/
def wraps (n : PhaseInit) : Int :=
  (n.phase + 715827882666) / 18446744073709551616

/-- The sample period in units of 2⁻³² ticks. -/
def period : ℚ := 16000000 * 2 ^ 32 / 48000

/-- The unwrapped central time of sample `k`, in units of 2⁻³² ticks. -/
def sampleTime (n : PhaseInit) (k : ℕ) : ℚ :=
  k * period - n.heldPhase

/-- The samples of two nodes coincide modulo the sample period to within a
tick. -/
def Coincide (m n : PhaseInit) : Prop :=
  ∀ k l : ℕ, ∃ j : ℤ, |m.sampleTime k - n.sampleTime l - j * period| ≤ 2 ^ 32

theorem targetTheta_eq (n : PhaseInit) :
    n.targetTheta = phaseTarget (UInt64.ofInt n.phase) := by
  simp only [targetTheta, audioSyncUpdate, n.centralTime_eq, freqEstUpdate_of_reset n.reset,
    if_true, freqEstGetState, freqEstStart, n.i2sTime_eq, phase, ofInt_sub]

theorem heldPhase_eq (n : PhaseInit) :
    ∃ steps : ℤ, 0 ≤ steps ∧ steps ≤ 12884901 ∧
      n.heldPhase = steps * 1431655765333 + 18446744073709551616 * n.wraps := by
  refine ⟨(n.phase + 715827882666) % 18446744073709551616 / 1431655765333, by omega, by omega, ?_⟩
  have hphase := toNat_ofInt n.phase
  have htarget := toNat_phaseTarget (UInt64.ofInt n.phase)
  rw [heldPhase, toInt_phaseDiffSigned, targetTheta_eq, wraps, Int.bmod_def]
  generalize (UInt64.ofInt n.phase).toNat = theta at hphase htarget
  generalize (phaseTarget (UInt64.ofInt n.phase)).toNat = target at htarget
  omega

theorem sampleTime_sub (m n : PhaseInit) (k l : ℕ) (j : ℤ) :
    m.sampleTime k - n.sampleTime l - j * period =
      ((4294967296000 * (k - l - j) - 3 * (m.heldPhase - n.heldPhase) : ℤ) : ℚ) / 3 := by
  simp only [sampleTime, period]
  push_cast
  ring

theorem abs_div_three_le_iff (x : ℤ) : |(x : ℚ) / 3| ≤ 2 ^ 32 ↔ |x| ≤ 12884901888 := by
  rw [abs_div, abs_of_pos (by norm_num : (0 : ℚ) < 3), div_le_iff₀ (by norm_num)]
  norm_num
  exact_mod_cast Iff.rfl

theorem coincide_iff_int (m n : PhaseInit) :
    m.Coincide n ↔
      ∃ j : ℤ, |4294967296000 * j - 3 * (m.heldPhase - n.heldPhase)| ≤ 12884901888 := by
  simp only [Coincide, sampleTime_sub, abs_div_three_le_iff]
  constructor
  · intro h
    obtain ⟨j, hj⟩ := h 0 0
    exact ⟨_, hj⟩
  · rintro ⟨j, hj⟩ k l
    refine ⟨k - l - j, ?_⟩
    rwa [sub_sub_cancel]

theorem dvd_wraps_of_coincide {m n : PhaseInit} (h : m.Coincide n) :
    (125 : ℤ) ∣ m.wraps - n.wraps := by
  obtain ⟨i, hi0, hi1, hi⟩ := m.heldPhase_eq
  obtain ⟨j, hj0, hj1, hj⟩ := n.heldPhase_eq
  rw [coincide_iff_int, hi, hj] at h
  obtain ⟨k, hk⟩ := h
  rw [abs_le] at hk
  -- the error of the rounded period is far smaller than what one wrap adds
  have hsteps : 125 * (k - i + j) = 1610612736 * (m.wraps - n.wraps) := by omega
  omega

theorem coincide_of_dvd_wraps {m n : PhaseInit} (h : (125 : ℤ) ∣ m.wraps - n.wraps) :
    m.Coincide n := by
  obtain ⟨i, hi0, hi1, hi⟩ := m.heldPhase_eq
  obtain ⟨j, hj0, hj1, hj⟩ := n.heldPhase_eq
  obtain ⟨d, hd⟩ := h
  rw [coincide_iff_int, hi, hj]
  refine ⟨i - j + 1610612736 * d, ?_⟩
  rw [abs_le]
  omega

theorem coincide_iff (m n : PhaseInit) : m.Coincide n ↔ (125 : ℤ) ∣ m.wraps - n.wraps :=
  ⟨dvd_wraps_of_coincide, coincide_of_dvd_wraps⟩

/-- A timer that has received two packets in a row. -/
def twoPackets : TimerState :=
  ⟨true, true, 2, 1600000, [(0, 0)]⟩

theorem syncTimerLocalToCentral_twoPackets (time : UInt64) :
    syncTimerLocalToCentral twoPackets time =
      (true, UInt64.ofInt (syncTimerLocalToCentral twoPackets time).2.toNat) := by
  have hcast : UInt64.ofInt (syncTimerLocalToCentral twoPackets time).2.toNat =
      (syncTimerLocalToCentral twoPackets time).2 := by
    rw [← UInt64.toNat_inj]
    have hint := toNat_ofInt (syncTimerLocalToCentral twoPackets time).2.toNat
    have hlt := (syncTimerLocalToCentral twoPackets time).2.toNat_lt
    omega
  rw [hcast]
  rfl

/-- The first block of a node, `late` wraps of the central's timer after the
same block of another node. -/
def firstBlock (late : ℕ) : PhaseInit where
  timer := twoPackets
  audio := audioInitial 39845
  time := ⟨0, 3200000⟩
  i2sTime := 0
  centralTime :=
    (syncTimerLocalToCentral twoPackets (quFromInt 3200000)).2.toNat + 18446744073709551616 * late
  reset := rfl
  i2sTime_eq := rfl
  centralTime_eq := by
    have hwrap : UInt64.ofInt (18446744073709551616 * late) = 0 := by
      rw [UInt64.ofInt_mul]
      exact UInt64.zero_mul
    rw [UInt64.ofInt_add, hwrap, UInt64.add_zero]
    exact syncTimerLocalToCentral_twoPackets _

theorem not_coincide_firstBlock : ¬ (firstBlock 0).Coincide (firstBlock 1) := by
  intro h
  have hdvd := dvd_wraps_of_coincide h
  simp only [wraps, phase, firstBlock] at hdvd
  omega

end PhaseInit

end ZeusLe.SamplingGrid
