import ZeusLe.AudioSync

/-! Which blocks reach the recorder with a time of the central. -/

namespace ZeusLe.CentralTiming

open ZeusLe.Audio
open ZeusLe.AudioSync
open ZeusLe.FreqControl
open ZeusLe.Library.Run
open ZeusLe.SyncTimer

theorem syncTimerRecvAdv_init (time : UInt32) (sync : Protocol.ZeusAdvSync) (t : TimerState) :
    (syncTimerRecvAdv time sync t).init = t.init := by
  simp only [syncTimerRecvAdv]
  split <;> rfl

theorem syncTimerLocalToCentral_iff {t : TimerState} (hinit : t.init = true) (time : UInt64) :
    (syncTimerLocalToCentral t time).1 = true ↔ (timerEst t).status ≠ .reset := by
  simp only [syncTimerLocalToCentral, hinit, Bool.not_true, Bool.false_eq_true, if_false]
  split <;> simp_all

theorem audioSyncUpdate_valid (t : TimerState) (time : BlockTime) (d : AudioData) :
    (audioSyncUpdate t time d).1.valid = true :=
  rfl

theorem audioSyncUpdate_central (t : TimerState) (time : BlockTime) (d : AudioData) :
    (audioSyncUpdate t time d).1.central =
      (syncTimerLocalToCentral t (quFromInt time.refTime)).1 :=
  rfl

theorem audioSyncUpdate_init_iff (t : TimerState) (time : BlockTime) (d : AudioData) :
    (audioSyncUpdate t time d).1.result = .init ↔ d.freqEst.status = .reset :=
  freqEstUpdate_init_iff _ _ _ _

/-- A block that is passed on has a time of the central, and none is passed on
while the estimator of the timer is reset. -/
def CentrallyTimed (s : SyncSystem) : SyncInput → Prop
  | .recvAdv _ _ => True
  | .block buf time =>
      ((audioSyncUpdate s.timer time s.audio).1.valid = true →
        (audioSyncUpdate s.timer time s.audio).1.central = true ∧
          (audioThreadBlock buf time s).targetCentral = true) ∧
      ((timerEst s.timer).status = .reset → (audioThreadBlock buf time s).recorded = s.recorded)

/-- A block comes when the estimator of the timer is not reset. -/
def HasReference (s : SyncSystem) : SyncInput → Prop
  | .recvAdv _ _ => True
  | .block _ _ => (timerEst s.timer).status ≠ .reset

/-- The timer runs, and a phase target was set with a central reference. -/
structure Referenced (s : SyncSystem) : Prop where
  init : s.timer.init = true
  target : s.audio.freqEst.status ≠ .reset → s.targetCentral = true

theorem referenced_initial (freq : UInt16) : Referenced (syncSystemInitial freq) where
  init := rfl
  target := fun h => absurd rfl h

theorem targetCentral_audioThreadBlock {s : SyncSystem} (hs : Referenced s)
    (hest : (timerEst s.timer).status ≠ .reset) (buf : BlockBuf) (time : BlockTime) :
    (audioThreadBlock buf time s).targetCentral = true := by
  have hcentral := (syncTimerLocalToCentral_iff hs.init (quFromInt time.refTime)).mpr hest
  change (if (audioSyncUpdate s.timer time s.audio).1.result = .init
    then (audioSyncUpdate s.timer time s.audio).1.central else s.targetCentral) = true
  rw [audioSyncUpdate_central, hcentral]
  split
  · rfl
  · rename_i hnot
    apply hs.target
    rwa [audioSyncUpdate_init_iff] at hnot

theorem referenced_step (s : SyncSystem) (i : SyncInput) (hs : Referenced s)
    (hi : HasReference s i) : Referenced (syncStep s i) := by
  cases i with
  | recvAdv time sync =>
      exact ⟨(syncTimerRecvAdv_init time sync s.timer).trans hs.init, hs.target⟩
  | block buf time =>
      exact ⟨hs.init, fun _ => targetCentral_audioThreadBlock hs hi buf time⟩

theorem centrallyTimed_of_hasReference (s : SyncSystem) (i : SyncInput) (hs : Referenced s)
    (hi : HasReference s i) : CentrallyTimed s i := by
  cases i with
  | recvAdv time sync => trivial
  | block buf time =>
      constructor
      · intro _
        constructor
        · exact (syncTimerLocalToCentral_iff hs.init _).mpr hi
        · exact targetCentral_audioThreadBlock hs hi buf time
      · intro hreset
        exact absurd hreset hi

theorem hasReference_of_centrallyTimed (s : SyncSystem) (i : SyncInput)
    (hinit : s.timer.init = true) (hi : CentrallyTimed s i) : HasReference s i := by
  cases i with
  | recvAdv time sync => trivial
  | block buf time =>
      have hcentral := (hi.1 (audioSyncUpdate_valid _ _ _)).1
      exact (syncTimerLocalToCentral_iff hinit _).mp hcentral

/-- The blocks of a run all have a time of the central exactly when each of them
comes while the estimator of the timer is not reset. -/
theorem along_centrallyTimed_iff (freq : UInt16) (inputs : List SyncInput) :
    Along syncStep CentrallyTimed (syncSystemInitial freq) inputs ↔
      Along syncStep HasReference (syncSystemInitial freq) inputs := by
  constructor
  · intro h
    apply along_of_invariant (P := fun s => s.timer.init = true) ?_
      hasReference_of_centrallyTimed rfl h
    intro s i hinit _
    cases i with
    | recvAdv time sync => exact (syncTimerRecvAdv_init time sync s.timer).trans hinit
    | block buf time => exact hinit
  · exact along_of_invariant referenced_step centrallyTimed_of_hasReference
      (referenced_initial freq)

/-- The first block, before any packet of the central, is passed on. -/
theorem first_block_not_centrallyTimed :
    ¬ Along syncStep CentrallyTimed (syncSystemInitial 39845) [.block silence ⟨0, 5⟩] := by
  rintro ⟨⟨hvalid, -⟩, -⟩
  have hcentral := (hvalid (audioSyncUpdate_valid _ _ _)).1
  rw [audioSyncUpdate_central] at hcentral
  exact (syncTimerLocalToCentral_iff rfl _).mp hcentral rfl

end ZeusLe.CentralTiming
