import ZeusLe.Library.Run
import ZeusLe.Library.Versions
import ZeusLe.CentralSync
import ZeusLe.Mgr

/-!
The whole central. The network core sends the packets and reports each one; the
application core takes the reports in order and sets the data of later packets.
-/

namespace ZeusLe.Broadcast

open ZeusLe.CentralSync
open ZeusLe.Library.Versions
open ZeusLe.Mgr
open ZeusLe.Protocol

inductive Event where
  | transmit
  | ipcRecv
  | update (err : Int)
  | start
  | stop
  deriving DecidableEq, Repr

/-- A periodic packet. `command` is not part of it: it says under which number
the data was set and which accepted command it carries. -/
structure Packet where
  data : Option BtData
  command : Sample Nat
  deriving DecidableEq, Repr

/-- `pending` is the submitted update work. `accepted`, `taken` and `command`
record the commands accepted so far, how many of them have left the queue, and
the one in the data; nothing else depends on them. -/
structure State where
  seq : UInt8
  messages : List ZeusSyncMsg
  central : SyncData
  pending : Bool
  advertised : Packet
  sent : List Packet
  accepted : List RecordCall
  taken : Nat
  command : Sample Nat
  deriving DecidableEq, Repr

def noCommand : Sample Nat := ⟨0, none⟩

def initial : State where
  seq := 0
  messages := []
  central := syncInitial
  pending := false
  advertised := ⟨none, noCommand⟩
  sent := []
  accepted := []
  taken := 0
  command := noCommand

/-- The record of the command in the data once an update has made it `central`. -/
def nextCommand (central : SyncData) (s : State) : Sample Nat where
  version := if central.cmdSeq = s.central.cmdSeq then s.command.version
    else s.command.version + 1
  content := if central.advData.cmd = .none then none
    else if s.central.cmdQueue.isEmpty then s.command.content else some s.taken

/-- `sync_adv_update_handler`. The data stays when `bt_le_per_adv_set_data` fails. -/
def syncAdvUpdateHandler (err : Int) (s : State) : State :=
  let (data, central) := syncAdvUpdateData s.central
  let command := nextCommand central s
  { s with
    central := central
    pending := false
    taken := if s.central.cmdQueue.isEmpty then s.taken else s.taken + 1
    command := command
    advertised := if err = 0 then ⟨some data, command⟩ else s.advertised }

def accept (call : RecordCall) (res : Int × SyncData) (s : State) : State :=
  { s with
    central := res.2
    accepted := if res.1 = 0 then s.accepted ++ [call] else s.accepted }

/-- Packet `n` is sent at the time `T n`. -/
def step (T : Nat → UInt32) (s : State) : Event → State
  | .transmit =>
      let (msg, seq) := packetTimerIsr (T s.sent.length) s.seq
      { s with seq := seq, messages := s.messages ++ [msg], sent := s.sent ++ [s.advertised] }
  | .ipcRecv =>
      match s.messages with
      | [] => s
      | msg :: messages =>
          { s with messages := messages, central := syncIpcRecv msg s.central, pending := true }
  | .update err => if s.pending then syncAdvUpdateHandler err s else s
  | .start =>
      accept (.start (s.central.lastPktTime + syncStartDelay)) (syncCmdStart s.central) s
  | .stop => accept .stop (syncCmdStop s.central) s

end ZeusLe.Broadcast
