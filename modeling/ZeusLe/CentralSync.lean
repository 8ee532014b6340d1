import Mathlib.Data.List.Basic
import ZeusLe.Errno
import ZeusLe.Protocol
import ZeusLe.Record

/-!
The central's side of the protocol: the packet timer of the network core,
`central/net/src/main.c`, and the application core, `central/app/src/sync.c`.
-/

namespace ZeusLe.CentralSync

open ZeusLe.Protocol
open ZeusLe.Record

structure ZeusSyncMsg where
  seq : UInt8
  time : UInt32
  deriving DecidableEq, Repr

/-- `packet_timer_isr` after a periodic packet that ended at `time`: the message
and the next sequence number. -/
def packetTimerIsr (time : UInt32) (seq : UInt8) : ZeusSyncMsg × UInt8 :=
  (⟨seq, time⟩, seq + 1)

def syncStartDelay : UInt32 := 2 * 16000000

def syncCmdQueueLen : Nat := 2

/-- `struct sync_data` with the command queue and the LED that shows the state. -/
structure SyncData where
  advData : ZeusAdvData
  firstSeq : Bool
  prevSeq : UInt8
  lastPktTime : UInt32
  cmdSeq : UInt16
  cmdQueue : List ZeusAdvCmd
  led : LedRecordState
  deriving DecidableEq, Repr

def syncInitial : SyncData where
  advData := ⟨⟨⟨0, 0⟩, 0⟩, .none⟩
  firstSeq := true
  prevSeq := 0
  lastPktTime := 0
  cmdSeq := 0
  cmdQueue := []
  led := .idle

def syncTimeDiff (a b : UInt32) : Int32 :=
  (a - b).toInt32

/-- `k_msgq_get` into `adv_data.cmd`. -/
def takeCmd (s : SyncData) : Bool × SyncData :=
  match s.cmdQueue with
  | [] => (false, s)
  | cmd :: queue => (true, { s with advData := { s.advData with cmd := cmd }, cmdQueue := queue })

def expired (data : ZeusAdvData) : Bool :=
  match data.cmd with
  | .start time => syncTimeDiff time data.hdr.sync.prevTime < -syncStartDelay.toInt32
  | _ => false

/-- The `switch` of `sync_adv_update_data`: an old start command is cleared. -/
def clearCmd (newCmd : Bool) (s : SyncData) : Bool × SyncData :=
  match s.advData.cmd with
  | .start time =>
      let led := if syncTimeDiff time s.advData.hdr.sync.prevTime > 0
        then LedRecordState.waiting else LedRecordState.running
      let s := { s with led := led }
      if expired s.advData then (true, { s with advData := { s.advData with cmd := .none } })
      else (newCmd, s)
  | .stop => (newCmd, { s with led := .idle })
  | .none => (newCmd, s)

/-- `sync_adv_update_data` up to its call of `bt_le_per_adv_set_data`: the data
for that call. -/
def syncAdvUpdateData (s : SyncData) : BtData × SyncData :=
  let (newCmd, s) := takeCmd s
  let (newCmd, s) := clearCmd newCmd s
  let s := if newCmd then
      { s with
        advData := { s.advData with hdr := { s.advData.hdr with seq := s.cmdSeq + 1 } }
        cmdSeq := s.cmdSeq + 1 }
    else s
  (s.advData.btData, s)

def syncIpcRecv (msg : ZeusSyncMsg) (s : SyncData) : SyncData :=
  { s with
    prevSeq := msg.seq
    firstSeq := false
    lastPktTime := msg.time
    advData := { s.advData with hdr := { s.advData.hdr with sync := ⟨msg.seq, msg.time⟩ } } }

def putCmd (cmd : ZeusAdvCmd) (s : SyncData) : Int × SyncData :=
  if s.cmdQueue.length < syncCmdQueueLen then (0, { s with cmdQueue := s.cmdQueue ++ [cmd] })
  else (-enomsg, s)

def syncCmdStart (s : SyncData) : Int × SyncData :=
  putCmd (.start (s.lastPktTime + syncStartDelay)) s

def syncCmdStop (s : SyncData) : Int × SyncData :=
  putCmd .stop s

theorem takeCmd_hdr (s : SyncData) : (takeCmd s).2.advData.hdr = s.advData.hdr := by
  simp only [takeCmd]
  split <;> rfl

theorem clearCmd_hdr (newCmd : Bool) (s : SyncData) :
    (clearCmd newCmd s).2.advData.hdr = s.advData.hdr := by
  simp only [clearCmd]
  split
  · split <;> rfl
  · rfl
  · rfl

theorem clearCmd_queue (newCmd : Bool) (s : SyncData) :
    (clearCmd newCmd s).2.cmdQueue = s.cmdQueue ∧
      (clearCmd newCmd s).2.cmdSeq = s.cmdSeq := by
  simp only [clearCmd]
  split
  · split <;> exact ⟨rfl, rfl⟩
  · exact ⟨rfl, rfl⟩
  · exact ⟨rfl, rfl⟩

theorem clearCmd_cases (newCmd : Bool) (s : SyncData) :
    ((clearCmd newCmd s).1 = newCmd ∧ (clearCmd newCmd s).2.advData.cmd = s.advData.cmd) ∨
      ((clearCmd newCmd s).1 = true ∧ (clearCmd newCmd s).2.advData.cmd = .none) := by
  simp only [clearCmd]
  split
  · split
    · exact .inr ⟨rfl, rfl⟩
    · exact .inl ⟨rfl, rfl⟩
  · exact .inl ⟨rfl, rfl⟩
  · exact .inl ⟨rfl, rfl⟩

theorem syncAdvUpdateData_sync (s : SyncData) :
    (syncAdvUpdateData s).2.advData.hdr.sync = s.advData.hdr.sync := by
  have hhdr := (clearCmd_hdr (takeCmd s).1 (takeCmd s).2).trans (takeCmd_hdr s)
  have hsync := congrArg ZeusAdvHeader.sync hhdr
  simp only [syncAdvUpdateData]
  split
  · simpa using hsync
  · simpa using hsync

theorem syncAdvUpdateData_btData (s : SyncData) :
    (syncAdvUpdateData s).1 = (syncAdvUpdateData s).2.advData.btData :=
  rfl

theorem syncAdvUpdateData_cases (s : SyncData) :
    let s' := (syncAdvUpdateData s).2
    (s.cmdQueue = [] ∧ s'.cmdQueue = [] ∧ s'.cmdSeq = s.cmdSeq ∧
        s'.advData.hdr.seq = s.advData.hdr.seq ∧ s'.advData.cmd = s.advData.cmd) ∨
      (s'.cmdQueue = s.cmdQueue.tail ∧ s'.cmdSeq = s.cmdSeq + 1 ∧
        s'.advData.hdr.seq = s.cmdSeq + 1 ∧
        (s'.advData.cmd = .none ∨ s.cmdQueue.head? = some s'.advData.cmd)) := by
  have hqueue := clearCmd_queue (takeCmd s).1 (takeCmd s).2
  have hhdr := clearCmd_hdr (takeCmd s).1 (takeCmd s).2
  have hcases := clearCmd_cases (takeCmd s).1 (takeCmd s).2
  simp only [syncAdvUpdateData]
  generalize hclear : clearCmd (takeCmd s).1 (takeCmd s).2 = cleared at hqueue hhdr hcases ⊢
  rcases hs : s.cmdQueue with _ | ⟨cmd, queue⟩
  · simp only [takeCmd, hs] at hqueue hhdr hcases
    rcases hcases with ⟨hnew, hcmd⟩ | ⟨hnew, hcmd⟩
    · simp [hnew, hcmd, hqueue, hhdr]
    · simp [hnew, hcmd, hqueue]
  · simp only [takeCmd, hs] at hqueue hhdr hcases
    rcases hcases with ⟨hnew, hcmd⟩ | ⟨hnew, hcmd⟩
    · simp [hnew, hcmd, hqueue]
    · simp [hnew, hcmd, hqueue]

end ZeusLe.CentralSync
