import ZeusLe.Errno
import ZeusLe.Mgr

/-!
The coroutines of the manager, `mgr.cpp` and `coroutine.hpp`. `mgr_run` awaits
`mgr_sync` or `mgr_pair`, which share their storage; these await a scan or an
event. Every callback of the Bluetooth host lends its event to the coroutines
and activates `mgr_run`.
-/

namespace ZeusLe.MgrCoroutine

open ZeusLe.Mgr
open ZeusLe.Protocol

abbrev Addr := Nat

abbrev Conn := Nat

inductive MgrCmd where
  | none
  | pair
  deriving DecidableEq, Repr

/-- What the coroutines read of a scan report. -/
structure ScanInfo where
  addr : Addr
  connectable : Bool
  interval : UInt16
  sid : UInt8
  data : List ScanData
  deriving DecidableEq, Repr

inductive SyncEvent where
  | synced
  | term
  | recv (time : UInt32) (data : List BtData)
  deriving DecidableEq, Repr

structure ConnectionEvent where
  conn : Conn
  err : UInt8
  deriving DecidableEq, Repr

inductive AuthEventType where
  | securityChanged (err : Nat)
  | pairingComplete (bonded : Bool)
  | pairingFailed (reason : Nat)
  deriving DecidableEq, Repr

structure AuthEvent where
  conn : Conn
  type : AuthEventType
  deriving DecidableEq, Repr

inductive RunLabel where
  | idle
  | sync
  | pair
  deriving DecidableEq, Repr

/-- The labels of `mgr_sync` and of `mgr_pair`, whose `state___` is the same
word. -/
inductive CalleeLabel where
  | syncScan
  | syncEvent
  | pairScan
  | pairConnection
  | pairAuth
  deriving DecidableEq, Repr

/-- The labels in the storage of the callees of `mgr_pair`. -/
inductive PairCalleeLabel where
  | scan
  | connection
  | auth
  deriving DecidableEq, Repr

/-- The sync object of the host. -/
inductive PerAdvSync where
  | none
  | pending
  | established
  deriving DecidableEq, Repr

structure Manager where
  /-- `mgr_run`. -/
  runState : Option RunLabel
  addr : Addr
  /-- The word `state___` of the union of `mgr_sync` and `mgr_pair`. -/
  calleeState : Option CalleeLabel
  /-- `mgr_sync`: whether `sync` is not null, and the `state___` of its callee. -/
  sync : Bool
  sid : UInt8
  syncScan : Bool
  /-- `mgr_pair`. -/
  conn : Option Conn
  pairCallee : Option PairCalleeLabel
  /-- `struct mgr`. -/
  cmd : MgrCmd
  cancelCommand : Bool
  scanRecv : Option ScanInfo
  perAdvSync : Option SyncEvent
  connected : Option ConnectionEvent
  auth : Option AuthEvent
  adv : MgrState
  /-- The Bluetooth host. -/
  scanning : Bool
  hostSync : PerAdvSync
  paired : Option Addr
  nextConn : Conn
  ledSync : Bool
  calls : List RecordCall
  /-- How often `mgr_run` has taken the command, and `mgr_pair` has begun. -/
  pairsTaken : Nat
  pairsBegun : Nat
  deriving DecidableEq, Repr

/-- `bt_le_scan_start` fails while a scan is running. -/
def btLeScanStart (s : Manager) : Int × Manager :=
  if s.scanning then (-ealready, s) else (0, { s with scanning := true })

def btLeScanStop (s : Manager) : Manager :=
  { s with scanning := false }

/-- `bt_le_per_adv_sync_delete`: `term` is the callback, which an established
sync calls in the calling thread. -/
def btLePerAdvSyncDelete (term : Manager → Option Manager) (s : Manager) : Option Manager :=
  match s.hostSync with
  | .established => term { s with hostSync := .none }
  | .pending => some { s with hostSync := .none }
  | .none => some s

/-! Scanning. A coroutine that returns `none` is pending. -/

/-- The loop of a scan coroutine. A report that is not accepted has been taken
out of the loan, so that the next round suspends. -/
def scanLoop (accepts : ScanInfo → Bool) (cancel : Bool) (s : Manager) :
    Option (Except Int ScanInfo) × Manager :=
  if cancel then (some (.error (-ecanceled)), btLeScanStop s)
  else match s.scanRecv with
    | none => (none, s)
    | some info =>
        let s := { s with scanRecv := none }
        if accepts info then (some (.ok info), btLeScanStop s) else (none, s)

/-- A scan coroutine, from its beginning or from its resume point. -/
def scan (accepts : ScanInfo → Bool) (suspended cancel : Bool) (s : Manager) :
    Option (Except Int ScanInfo) × Manager :=
  if suspended then scanLoop accepts cancel s
  else
    let (ret, s) := btLeScanStart s
    if ret ≠ 0 then (some (.error ret), btLeScanStop s) else scanLoop accepts cancel s

def mgrScanForCentral (cancel : Bool) (s : Manager) :
    Option (Except Int ScanInfo) × Manager :=
  let (ret, s) := scan (fun info => acceptsCentral btDataParse info.connectable info.data)
    (s.pairCallee == some .scan) cancel s
  (ret, { s with pairCallee := if ret.isNone then some .scan else none })

def mgrScanForSync (addr : Addr) (cancel : Bool) (s : Manager) :
    Option (Except Int ScanInfo) × Manager :=
  let (ret, s) := scan (fun info => info.interval != 0 && info.addr == addr) s.syncScan cancel s
  (ret, { s with syncScan := ret.isNone })

/-- `CO_RETURN` of `mgr_sync` or of `mgr_pair`. -/
def coReturn (ret : Int) (s : Manager) : Option Int × Manager :=
  (some ret, { s with calleeState := none })

def coYield (label : CalleeLabel) (s : Manager) : Option Int × Manager :=
  (none, { s with calleeState := some label })

/-- `mgr_loan_get_conn` from the loan of events `ptr`: the event, if it is ready
or the wait was canceled, and what is left of the loan. It has no resume
point. -/
def mgrLoanGetConn {α : Type} (connOf : α → Conn) (ptr : Option α) (conn : Option Conn)
    (cancel : Bool) : Option (Option α) × Option α :=
  if cancel then (some none, ptr)
  else match ptr with
    | none => (none, none)
    | some event => if some (connOf event) = conn then (some (some event), none) else (none, none)

def mgrPairAuth (cancel : Bool) (s : Manager) : Option Int × Manager :=
  let (event, auth) := mgrLoanGetConn AuthEvent.conn s.auth s.conn cancel
  let s := { s with auth := auth, pairCallee := if event.isNone then some .auth else none }
  match event with
  | none => coYield .pairAuth s
  | some none => coReturn (-ecanceled) s
  | some (some event) =>
      match event.type with
      | .securityChanged err => coReturn err s
      -- the event has been taken, the next round of the loop suspends
      | .pairingComplete _ => coYield .pairAuth { s with pairCallee := some .auth }
      | .pairingFailed reason => coReturn reason s

def mgrPairConnection (cancel : Bool) (s : Manager) : Option Int × Manager :=
  let (event, connected) := mgrLoanGetConn ConnectionEvent.conn s.connected s.conn cancel
  let s := { s with
    connected := connected
    pairCallee := if event.isNone then some .connection else none }
  match event with
  | none => coYield .pairConnection s
  | some none => coReturn (-ecanceled) s
  | some (some event) =>
      if event.err ≠ 0 then coReturn event.err.toNat s else mgrPairAuth cancel s

/-- The connection is created to the central that was found. -/
def mgrPairScan (cancel : Bool) (s : Manager) : Option Int × Manager :=
  match mgrScanForCentral cancel s with
  | (none, s) => coYield .pairScan s
  | (some (.error ret), s) => coReturn ret s
  | (some (.ok _), s) =>
      mgrPairConnection cancel { s with conn := some s.nextConn, nextConn := s.nextConn + 1 }

/-- `mgr_pair`; `none` when its `state___` holds a label of `mgr_sync`. -/
def mgrPair (cancel : Bool) (s : Manager) : Option (Option Int × Manager) :=
  match s.calleeState with
  | none =>
      some (mgrPairScan cancel
        { s with conn := none, pairCallee := none, pairsBegun := s.pairsBegun + 1 })
  | some .pairScan => some (mgrPairScan cancel s)
  | some .pairConnection => some (mgrPairConnection cancel s)
  | some .pairAuth => some (mgrPairAuth cancel s)
  | some .syncScan | some .syncEvent => none

/-- `bt_data_parse` with the lambda of `mgr_sync`: up to the first element that
parses. -/
def recvData (time : UInt32) : List BtData → Manager → Manager
  | [], s => s
  | ad :: ads, s =>
      if (mgrParseAdvData ad).isSome then
        let (call, adv) := mgrReceive time ad s.adv
        { s with adv := adv, calls := s.calls ++ call.toList }
      else recvData time ads s

theorem recvData_eq (time : UInt32) (data : List BtData) (s : Manager) :
    ∃ adv calls, recvData time data s = { s with adv := adv, calls := calls } := by
  induction data with
  | nil => exact ⟨s.adv, s.calls, rfl⟩
  | cons ad ads ih =>
      simp only [recvData]
      split
      · exact ⟨_, _, rfl⟩
      · exact ih

section

variable (term : Manager → Option Manager)

/-- The end of `mgr_sync` from the label `exit`. -/
def mgrSyncExit (ret : Int) (s : Manager) : Option (Option Int × Manager) :=
  if s.sync then (btLePerAdvSyncDelete term s).map (coReturn ret) else some (coReturn ret s)

def mgrSyncEvent (cancel : Bool) (s : Manager) : Option (Option Int × Manager) :=
  if cancel then mgrSyncExit term (-ecanceled) s
  else match s.perAdvSync with
    | none => some (coYield .syncEvent s)
    | some event =>
        let s := { s with perAdvSync := none }
        match event with
        | .synced => some (coYield .syncEvent { s with ledSync := true })
        | .term => mgrSyncExit term (-ecanceled) { s with ledSync := false }
        | .recv time data => some (coYield .syncEvent (recvData time data s))

def mgrSyncScan (cancel : Bool) (s : Manager) : Option (Option Int × Manager) :=
  match mgrScanForSync s.addr cancel s with
  | (none, s) => some (coYield .syncScan s)
  | (some (.error ret), s) => some (coReturn ret s)
  | (some (.ok info), s) =>
      mgrSyncEvent term cancel { s with sid := info.sid, sync := true, hostSync := .pending }

/-- `mgr_sync`; `none` when its `state___` holds a label of `mgr_pair`. -/
def mgrSync (cancel : Bool) (s : Manager) : Option (Option Int × Manager) :=
  match s.calleeState with
  | none => mgrSyncScan term cancel { s with sync := false, sid := 0, syncScan := false }
  | some .syncScan => mgrSyncScan term cancel s
  | some .syncEvent => mgrSyncEvent term cancel s
  | some .pairScan | some .pairConnection | some .pairAuth => none

end

/-- Where `mgr_run` stands: at the head of its loop, or in one of its calls. -/
inductive Point where
  | loop
  | sync
  | pair
  deriving DecidableEq, Repr

/-- Where `mgr_run` goes on when it is called; the beginning leads to the
loop. -/
def resumePoint : Option RunLabel → Point
  | none | some .idle => .loop
  | some .sync => .sync
  | some .pair => .pair

def mgrPerAdvSyncTerm (run : Manager → Option Manager) (s : Manager) : Option Manager :=
  (run { s with perAdvSync := some .term }).map fun s => { s with perAdvSync := none }

/-- `mgr_run` until it suspends. The fuel bounds the rounds of its loop and the
depth of nested activations. -/
def runFrom : Nat → Point → Manager → Option Manager
  | 0, _, _ => none
  | fuel + 1, .loop, s =>
      match s.cmd with
      | .none =>
          let s := { s with cancelCommand := false }
          match s.paired with
          | none => some { s with runState := some .idle }
          | some addr => runFrom fuel .sync { s with addr := addr }
      | .pair =>
          runFrom fuel .pair { s with
            cancelCommand := false, cmd := .none, pairsTaken := s.pairsTaken + 1 }
  | fuel + 1, .sync, s =>
      match mgrSync (mgrPerAdvSyncTerm fun s => runFrom fuel (resumePoint s.runState) s)
          s.cancelCommand s with
      | none => none
      | some (none, s) => some { s with runState := some .sync }
      | some (some _, s) => runFrom fuel .loop s
  | fuel + 1, .pair, s =>
      match mgrPair s.cancelCommand s with
      | none => none
      | some (none, s) => some { s with runState := some .pair }
      | some (some _, s) => runFrom fuel .loop s

/-- More than any activation needs. -/
def runFuel : Nat := 8

/-- `m->run(K_FOREVER)`. -/
def activate (s : Manager) : Option Manager :=
  runFrom runFuel (resumePoint s.runState) s

/-- A callback of the host, a change of the bonds, or a call of the API. The
host ends the sync with `term true`; a canceled one can still be reported with
`term false`. -/
inductive Input where
  | scanRecv (info : ScanInfo)
  | synced
  | term (current : Bool)
  | recv (time : UInt32) (data : List BtData)
  | connected (event : ConnectionEvent)
  | disconnected
  | auth (event : AuthEvent)
  | bond (addr : Option Addr)
  | pairStart
  deriving DecidableEq, Repr

def mgrPairStart (s : Manager) : Option Manager :=
  activate { s with cmd := .pair, cancelCommand := true }

def mgrStep (s : Manager) : Input → Option Manager
  | .scanRecv info =>
      (activate { s with scanRecv := some info }).map fun s => { s with scanRecv := none }
  | .synced =>
      if s.hostSync = .pending then
        (activate { s with hostSync := .established, perAdvSync := some .synced }).map
          fun s => { s with perAdvSync := none }
      else some s
  | .term current =>
      mgrPerAdvSyncTerm activate (if current then { s with hostSync := .none } else s)
  | .recv time data =>
      (activate { s with perAdvSync := some (.recv time data) }).map
        fun s => { s with perAdvSync := none }
  | .connected event =>
      (activate { s with connected := some event }).map fun s => { s with connected := none }
  | .disconnected => activate s
  | .auth event => (activate { s with auth := some event }).map fun s => { s with auth := none }
  | .bond addr => some { s with paired := addr }
  | .pairStart => mgrPairStart s

def mgrBoot (paired : Option Addr) : Manager where
  runState := none
  addr := 0
  calleeState := none
  sync := false
  sid := 0
  syncScan := false
  conn := none
  pairCallee := none
  cmd := .none
  cancelCommand := false
  scanRecv := none
  perAdvSync := none
  connected := none
  auth := none
  adv := mgrInitial
  scanning := false
  hostSync := .none
  paired := paired
  nextConn := 0
  ledSync := false
  calls := []
  pairsTaken := 0
  pairsBegun := 0

end ZeusLe.MgrCoroutine
