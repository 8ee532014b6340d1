import ZeusLe.Protocol

/-! The clock of a node, `sync_timer.c`. -/

namespace ZeusLe.SyncTimer

open ZeusLe.Protocol

/-- The state of the timer. `updates` lists the calls of `freq_est_update` so
far: the local time and the reference time of each. -/
structure TimerState where
  init : Bool
  lastAdvValid : Bool
  lastAdvSeq : UInt8
  lastAdvTime : UInt32
  updates : List (UInt32 × UInt32)
  deriving DecidableEq, Repr

def timerInitial : TimerState := ⟨true, false, 0, 0, []⟩

/-- `sync_timer_recv_adv`; `time` is what the timer captured at the end of the
packet. -/
def syncTimerRecvAdv (time : UInt32) (sync : ZeusAdvSync) (t : TimerState) : TimerState :=
  if !t.init then t
  else
    let updates := if t.lastAdvValid && sync.seq == t.lastAdvSeq
      then t.updates ++ [(t.lastAdvTime, sync.prevTime)]
      else t.updates
    { t with
      lastAdvValid := true
      lastAdvSeq := sync.seq + 1
      lastAdvTime := time
      updates := updates }

end ZeusLe.SyncTimer
