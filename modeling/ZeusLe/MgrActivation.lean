import ZeusLe.Library.Loop
import ZeusLe.MgrCoroutine

/-!
An activation of `mgr_run` with a Bluetooth host whose calls can fail, one round
of its loop after the other.
-/

namespace ZeusLe.MgrActivation

open ZeusLe.Mgr
open ZeusLe.MgrCoroutine
open ZeusLe.Library.Loop

/-- The results of the calls of the host that are still to come. -/
structure Host where
  authInfoCbRegister : Int
  scanStart : Nat → Int
  perAdvSyncCreate : Nat → Int
  connLeCreate : Nat → Int
  connSetSecurity : Nat → Int
  connGetInfo : Nat → Int

def btLeScanStart (h : Host) (s : Manager) : Int × Host × Manager :=
  (h.scanStart 0, { h with scanStart := rest h.scanStart },
    if h.scanStart 0 = 0 then { s with scanning := true } else s)

def scan (accepts : ScanInfo → Bool) (suspended cancel : Bool) (h : Host) (s : Manager) :
    Option (Except Int ScanInfo) × Host × Manager :=
  if suspended then
    let (r, s) := scanLoop accepts cancel s
    (r, h, s)
  else
    let (ret, h, s) := btLeScanStart h s
    if ret ≠ 0 then (some (.error ret), h, btLeScanStop s)
    else
      let (r, s) := scanLoop accepts cancel s
      (r, h, s)

def mgrScanForCentral (cancel : Bool) (h : Host) (s : Manager) :
    Option (Except Int ScanInfo) × Host × Manager :=
  let (r, h, s) := scan (fun info => acceptsCentral btDataParse info.connectable info.data)
    (s.pairCallee == some .scan) cancel h s
  (r, h, { s with pairCallee := if r.isNone then some .scan else none })

def mgrScanForSync (addr : Addr) (cancel : Bool) (h : Host) (s : Manager) :
    Option (Except Int ScanInfo) × Host × Manager :=
  let (r, h, s) := scan (fun info => info.interval != 0 && info.addr == addr) s.syncScan cancel h s
  (r, h, { s with syncScan := r.isNone })

/-- What a call of `mgr_sync` or `mgr_pair` comes to. In `deleting` it deletes an
established sync, which calls `term`, and returns after that. -/
inductive Callee where
  | pending
  | ready (ret : Int)
  | deleting
  deriving DecidableEq, Repr

/-- Set `state___` as `CO_YIELD` and `CO_RETURN` do. -/
def yields (label : CalleeLabel) (h : Host) (s : Manager) : Callee × Host × Manager :=
  (.pending, h, { s with calleeState := some label })

def returns (ret : Int) (h : Host) (s : Manager) : Callee × Host × Manager :=
  (.ready ret, h, { s with calleeState := none })

def mgrPairAuth (cancel : Bool) (h : Host) (s : Manager) : Callee × Host × Manager :=
  let (event, auth) := mgrLoanGetConn AuthEvent.conn s.auth s.conn cancel
  let s := { s with auth := auth, pairCallee := if event.isNone then some .auth else none }
  match event with
  | none => yields .pairAuth h s
  | some none => returns (-ecanceled) h s
  | some (some event) =>
      match event.type with
      | .securityChanged err =>
          if err ≠ 0 then returns err h s
          else returns (h.connGetInfo 0) { h with connGetInfo := rest h.connGetInfo } s
      | .pairingComplete _ => yields .pairAuth h { s with pairCallee := some .auth }
      | .pairingFailed reason => returns reason h s

def mgrPairConnection (cancel : Bool) (h : Host) (s : Manager) : Callee × Host × Manager :=
  let (event, connected) := mgrLoanGetConn ConnectionEvent.conn s.connected s.conn cancel
  let s := { s with
    connected := connected
    pairCallee := if event.isNone then some .connection else none }
  match event with
  | none => yields .pairConnection h s
  | some none => returns (-ecanceled) h s
  | some (some event) =>
      if event.err ≠ 0 then returns event.err.toNat h s
      else
        let ret := h.connSetSecurity 0
        let h := { h with connSetSecurity := rest h.connSetSecurity }
        if ret ≠ 0 then returns ret h s else mgrPairAuth cancel h s

/-- `conn` stays null when `bt_conn_le_create` fails. -/
def mgrPairScan (cancel : Bool) (h : Host) (s : Manager) : Callee × Host × Manager :=
  match mgrScanForCentral cancel h s with
  | (none, h, s) => yields .pairScan h s
  | (some (.error ret), h, s) => returns ret h s
  | (some (.ok _), h, s) =>
      let ret := h.connLeCreate 0
      let h := { h with connLeCreate := rest h.connLeCreate }
      let s := if ret = 0 then { s with conn := some s.nextConn, nextConn := s.nextConn + 1 } else s
      if ret ≠ 0 ∧ ret ≠ -ealready then returns ret h s else mgrPairConnection cancel h s

def mgrPair (cancel : Bool) (h : Host) (s : Manager) : Option (Callee × Host × Manager) :=
  match s.calleeState with
  | none =>
      some (mgrPairScan cancel h
        { s with conn := none, pairCallee := none, pairsBegun := s.pairsBegun + 1 })
  | some .pairScan => some (mgrPairScan cancel h s)
  | some .pairConnection => some (mgrPairConnection cancel h s)
  | some .pairAuth => some (mgrPairAuth cancel h s)
  | some .syncScan | some .syncEvent => none

def mgrSyncExit (ret : Int) (h : Host) (s : Manager) : Callee × Host × Manager :=
  if s.sync then
    if s.hostSync = .established then (.deleting, h, { s with hostSync := .none })
    else returns ret h { s with hostSync := .none }
  else returns ret h s

def mgrSyncEvent (cancel : Bool) (h : Host) (s : Manager) : Callee × Host × Manager :=
  if cancel then mgrSyncExit (-ecanceled) h s
  else match s.perAdvSync with
    | none => yields .syncEvent h s
    | some event =>
        let s := { s with perAdvSync := none }
        match event with
        | .synced => yields .syncEvent h { s with ledSync := true }
        | .term => mgrSyncExit (-ecanceled) h { s with ledSync := false }
        | .recv time data => yields .syncEvent h (recvData time data s)

/-- The sync is created to the central that was found. -/
def mgrSyncCreate (cancel : Bool) (h : Host) (s : Manager) : Callee × Host × Manager :=
  let ret := h.perAdvSyncCreate 0
  let h := { h with perAdvSyncCreate := rest h.perAdvSyncCreate }
  if ret ≠ 0 then mgrSyncExit ret h { s with sync := false }
  else mgrSyncEvent cancel h { s with sync := true, hostSync := .pending }

def mgrSyncScan (cancel : Bool) (h : Host) (s : Manager) : Callee × Host × Manager :=
  match mgrScanForSync s.addr cancel h s with
  | (none, h, s) => yields .syncScan h s
  | (some (.error ret), h, s) => returns ret h s
  | (some (.ok info), h, s) => mgrSyncCreate cancel h { s with sid := info.sid }

def mgrSync (cancel : Bool) (h : Host) (s : Manager) : Option (Callee × Host × Manager) :=
  match s.calleeState with
  | none => some (mgrSyncScan cancel h { s with sync := false, sid := 0, syncScan := false })
  | some .syncScan => some (mgrSyncScan cancel h s)
  | some .syncEvent => some (mgrSyncEvent cancel h s)
  | some .pairScan | some .pairConnection | some .pairAuth => none

/-! Where the host grants what is asked of it, these are the coroutines of
`MgrCoroutine`. -/

/-- The next call of each kind succeeds, a scan only while none is running. -/
structure Grants (h : Host) (s : Manager) : Prop where
  scanStart : h.scanStart 0 = if s.scanning then -ealready else 0
  perAdvSyncCreate : h.perAdvSyncCreate 0 = 0
  connLeCreate : h.connLeCreate 0 = 0
  connSetSecurity : h.connSetSecurity 0 = 0
  connGetInfo : h.connGetInfo 0 = 0

def Callee.result : Callee → Option Int
  | .ready ret => some ret
  | .pending | .deleting => none

theorem btLeScanStart_granted {h : Host} {s : Manager}
    (hstart : h.scanStart 0 = if s.scanning then -ealready else 0) :
    MgrCoroutine.btLeScanStart s = ((btLeScanStart h s).1, (btLeScanStart h s).2.2) := by
  rw [MgrCoroutine.btLeScanStart, btLeScanStart, hstart]
  split <;> rfl

theorem scan_granted {h : Host} {s : Manager}
    (hstart : h.scanStart 0 = if s.scanning then -ealready else 0) (accepts : ScanInfo → Bool)
    (suspended cancel : Bool) :
    ∃ scanStart, scan accepts suspended cancel h s =
      ((MgrCoroutine.scan accepts suspended cancel s).1, { h with scanStart := scanStart },
        (MgrCoroutine.scan accepts suspended cancel s).2) := by
  cases suspended with
  | true => exact ⟨h.scanStart, rfl⟩
  | false =>
      refine ⟨rest h.scanStart, ?_⟩
      have hold := btLeScanStart_granted hstart
      have hhost : (btLeScanStart h s).2.1 = { h with scanStart := rest h.scanStart } := rfl
      simp only [scan, MgrCoroutine.scan, hold, Bool.false_eq_true, if_false]
      split <;> rw [hhost]

theorem mgrPairAuth_granted {h : Host} (hinfo : h.connGetInfo 0 = 0) (cancel : Bool)
    (s : Manager) : MgrCoroutine.mgrPairAuth cancel s =
      ((mgrPairAuth cancel h s).1.result, (mgrPairAuth cancel h s).2.2) := by
  simp only [mgrPairAuth, MgrCoroutine.mgrPairAuth]
  generalize mgrLoanGetConn AuthEvent.conn s.auth s.conn cancel = got
  rcases got with ⟨_ | _ | ⟨conn, err | _ | _⟩, auth⟩
  · rfl
  · rfl
  · cases err with
    | zero => simp only [ne_eq, not_true_eq_false, if_false, hinfo]; rfl
    | succ err => rfl
  · rfl
  · rfl

theorem mgrPairConnection_granted {h : Host} (hsecurity : h.connSetSecurity 0 = 0)
    (hinfo : h.connGetInfo 0 = 0) (cancel : Bool) (s : Manager) :
    MgrCoroutine.mgrPairConnection cancel s =
      ((mgrPairConnection cancel h s).1.result, (mgrPairConnection cancel h s).2.2) := by
  simp only [mgrPairConnection, MgrCoroutine.mgrPairConnection, hsecurity, ne_eq,
    not_true_eq_false, if_false]
  generalize mgrLoanGetConn ConnectionEvent.conn s.connected s.conn cancel = got
  rcases got with ⟨_ | _ | event, connected⟩
  · rfl
  · rfl
  · simp only
    split
    · rfl
    · exact mgrPairAuth_granted (h := { h with connSetSecurity := rest h.connSetSecurity }) hinfo
        cancel _

theorem mgrPairScan_granted {h : Host} {s : Manager} (hgrants : Grants h s) (cancel : Bool) :
    MgrCoroutine.mgrPairScan cancel s =
      ((mgrPairScan cancel h s).1.result, (mgrPairScan cancel h s).2.2) := by
  obtain ⟨scanStart, hscan⟩ := scan_granted hgrants.scanStart
    (fun info => acceptsCentral btDataParse info.connectable info.data)
    (s.pairCallee == some .scan) cancel
  simp only [mgrPairScan, mgrScanForCentral, MgrCoroutine.mgrPairScan,
    MgrCoroutine.mgrScanForCentral, hscan]
  generalize MgrCoroutine.scan (fun info => acceptsCentral btDataParse info.connectable info.data)
    (s.pairCallee == some .scan) cancel s = got
  rcases got with ⟨_ | ret | info, t⟩
  · rfl
  · rfl
  · simp only [hgrants.connLeCreate, ne_eq, not_true_eq_false, false_and, if_false, if_true]
    exact mgrPairConnection_granted
      (h := { h with scanStart := scanStart, connLeCreate := rest h.connLeCreate })
      hgrants.connSetSecurity hgrants.connGetInfo cancel _

theorem mgrPair_granted {h : Host} {s : Manager} (hgrants : Grants h s) (cancel : Bool) :
    MgrCoroutine.mgrPair cancel s =
      (mgrPair cancel h s).map fun r => (r.1.result, r.2.2) := by
  have hfresh : Grants h
      { s with conn := none, pairCallee := none, pairsBegun := s.pairsBegun + 1 } :=
    ⟨hgrants.scanStart, hgrants.perAdvSyncCreate, hgrants.connLeCreate, hgrants.connSetSecurity,
      hgrants.connGetInfo⟩
  have hbegin := mgrPairScan_granted hfresh cancel
  rw [mgrPair, MgrCoroutine.mgrPair]
  generalize s.calleeState = label at hbegin ⊢
  rcases label with _ | _ | _ | _ | _ | _
  · exact congrArg some hbegin
  · rfl
  · rfl
  · exact congrArg some (mgrPairScan_granted hgrants cancel)
  · exact congrArg some
      (mgrPairConnection_granted hgrants.connSetSecurity hgrants.connGetInfo cancel s)
  · exact congrArg some (mgrPairAuth_granted hgrants.connGetInfo cancel s)

/-- The delete of an established sync calls `term`. -/
def Callee.finish (term : Manager → Option Manager) :
    Callee × Host × Manager → Option (Option Int × Manager)
  | (.deleting, _, s) => (term s).map (coReturn (-ecanceled))
  | (callee, _, s) => some (callee.result, s)

section

variable (term : Manager → Option Manager)

theorem mgrSyncExit_granted (h : Host) (s : Manager) :
    MgrCoroutine.mgrSyncExit term (-ecanceled) s =
      Callee.finish term (mgrSyncExit (-ecanceled) h s) := by
  cases hsync : s.sync with
  | false =>
      simp only [mgrSyncExit, MgrCoroutine.mgrSyncExit, hsync, Bool.false_eq_true, if_false]
      rfl
  | true =>
      rcases hhost : s.hostSync with _ | _ | _
      · have hsame : { s with hostSync := .none } = s := by rw [← hhost]
        have hne : s.hostSync ≠ .established := by
          rw [hhost]
          exact PerAdvSync.noConfusion
        rw [mgrSyncExit, MgrCoroutine.mgrSyncExit, if_pos hsync, if_pos hsync, if_neg hne, hsame,
          btLePerAdvSyncDelete, hhost]
        rfl
      · simp only [mgrSyncExit, MgrCoroutine.mgrSyncExit, btLePerAdvSyncDelete, hsync, hhost,
          reduceCtorEq, if_true, if_false]
        rfl
      · simp only [mgrSyncExit, MgrCoroutine.mgrSyncExit, btLePerAdvSyncDelete, hsync, hhost,
          if_true]
        rfl

theorem mgrSyncEvent_granted (cancel : Bool) (h : Host) (s : Manager) :
    MgrCoroutine.mgrSyncEvent term cancel s =
      Callee.finish term (mgrSyncEvent cancel h s) := by
  cases cancel with
  | true => exact mgrSyncExit_granted term h s
  | false =>
      rcases hevent : s.perAdvSync with _ | _ | _ | ⟨time, data⟩ <;>
        simp only [mgrSyncEvent, MgrCoroutine.mgrSyncEvent, hevent, Bool.false_eq_true, if_false]
      · rfl
      · rfl
      · exact mgrSyncExit_granted term h _
      · rfl

theorem mgrSyncScan_granted {h : Host} {s : Manager} (hgrants : Grants h s) (cancel : Bool) :
    MgrCoroutine.mgrSyncScan term cancel s =
      Callee.finish term (mgrSyncScan cancel h s) := by
  obtain ⟨scanStart, hscan⟩ := scan_granted hgrants.scanStart
    (fun info => info.interval != 0 && info.addr == s.addr) s.syncScan cancel
  simp only [mgrSyncScan, mgrScanForSync, MgrCoroutine.mgrSyncScan,
    MgrCoroutine.mgrScanForSync, hscan]
  generalize MgrCoroutine.scan (fun info => info.interval != 0 && info.addr == s.addr) s.syncScan
    cancel s = got
  rcases got with ⟨_ | ret | info, t⟩
  · rfl
  · rfl
  · simp only [mgrSyncCreate, hgrants.perAdvSyncCreate, ne_eq, not_true_eq_false, if_false]
    exact mgrSyncEvent_granted term cancel _ _

theorem mgrSync_granted {h : Host} {s : Manager} (hgrants : Grants h s) (cancel : Bool) :
    MgrCoroutine.mgrSync term cancel s =
      (mgrSync cancel h s).bind (Callee.finish term) := by
  have hfresh : Grants h { s with sync := false, sid := 0, syncScan := false } :=
    ⟨hgrants.scanStart, hgrants.perAdvSyncCreate, hgrants.connLeCreate, hgrants.connSetSecurity,
      hgrants.connGetInfo⟩
  have hbegin := mgrSyncScan_granted term hfresh cancel
  rw [mgrSync, MgrCoroutine.mgrSync]
  generalize s.calleeState = label at hbegin ⊢
  rcases label with _ | _ | _ | _ | _ | _
  · exact hbegin
  · exact mgrSyncScan_granted term hgrants cancel
  · exact mgrSyncEvent_granted term cancel h s
  · rfl
  · rfl
  · rfl

end

/-- Where `mgr_run` stands: at its beginning, at the head of its loop, or in one
of its calls. -/
inductive Place where
  | begin
  | loop
  | sync
  | pair
  deriving DecidableEq, Repr

def placeOf : Option RunLabel → Place
  | none => .begin
  | some .idle => .loop
  | some .sync => .sync
  | some .pair => .pair

/-- `outer` counts the activations in whose `bt_le_per_adv_sync_delete` this one
runs. -/
structure Activation where
  outer : Nat
  place : Place
  host : Host
  mgr : Manager

/-- `none` is a jump to a label of another coroutine. -/
abbrev Result := Option (Host × Manager)

/-- `mgr_run` suspends or returns; then the callback ends, and with it the delete
of the sync in which it was called. -/
def giveBack (c : Activation) (h : Host) (s : Manager) : Activation ⊕ Result :=
  match c.outer with
  | 0 => .inr (some (h, s))
  | outer + 1 => .inl ⟨outer, .loop, h, { s with perAdvSync := none, calleeState := none }⟩

/-- The loop goes on behind a call of `mgr_sync` or `mgr_pair`. -/
def goOn (c : Activation) (label : RunLabel) : Option (Callee × Host × Manager) →
    Activation ⊕ Result
  | none => .inr none
  | some (.pending, h, s) => giveBack c h { s with runState := some label }
  | some (.ready _, h, s) => .inl ⟨c.outer, .loop, h, s⟩
  | some (.deleting, h, s) =>
      .inl ⟨c.outer + 1, placeOf s.runState, h, { s with perAdvSync := some .term }⟩

def round (c : Activation) : Activation ⊕ Result :=
  let s := c.mgr
  match c.place with
  | .begin =>
      if c.host.authInfoCbRegister ≠ 0 then giveBack c c.host s
      else .inl { c with place := .loop }
  | .loop =>
      match s.cmd with
      | .none =>
          let s := { s with cancelCommand := false }
          match s.paired with
          | none => giveBack c c.host { s with runState := some .idle }
          | some addr => goOn c .sync (mgrSync s.cancelCommand c.host { s with addr := addr })
      | .pair =>
          let s := { s with
            cancelCommand := false, cmd := .none, pairsTaken := s.pairsTaken + 1 }
          goOn c .pair (mgrPair s.cancelCommand c.host s)
  | .sync => goOn c .sync (mgrSync s.cancelCommand c.host s)
  | .pair => goOn c .pair (mgrPair s.cancelCommand c.host s)

/-- The resume points of the coroutines fit together. -/
def LabelsFit (s : Manager) : Prop :=
  match s.runState with
  | none | some .idle => s.calleeState = none
  | some .sync => s.calleeState = some .syncScan ∨ s.calleeState = some .syncEvent
  | some .pair => s.calleeState = some .pairScan ∨ s.calleeState = some .pairConnection ∨
      s.calleeState = some .pairAuth

/-- A state of the coroutine tree, with the events that are lent to it. -/
abbrev CoroutineTree := { s : Manager // LabelsFit s }

def activation (host : Host) (tree : CoroutineTree) : Activation :=
  ⟨0, placeOf tree.val.runState, host, tree.val⟩

/-- How much there is to take for the coroutines: an established sync counts for
the activation in its delete. -/
def load (s : Manager) : Nat :=
  (if s.hostSync = .established then 3 else 0) + (if s.cmd = .pair then 1 else 0) +
    s.scanRecv.isSome.toNat + s.perAdvSync.isSome.toNat

/-- The command and the bond stay, and nothing is added to the load. -/
structure Spends (s t : Manager) : Prop where
  cmd : t.cmd = s.cmd
  paired : t.paired = s.paired
  run : t.runState = s.runState
  load : load t ≤ load s

theorem Spends.refl (s : Manager) : Spends s s :=
  ⟨rfl, rfl, rfl, Nat.le_refl _⟩

theorem Spends.trans {s t u : Manager} (hst : Spends s t) (htu : Spends t u) : Spends s u :=
  ⟨htu.cmd.trans hst.cmd, htu.paired.trans hst.paired, htu.run.trans hst.run,
    Nat.le_trans htu.load hst.load⟩

theorem spends_of_eq {s t : Manager} (hcmd : t.cmd = s.cmd) (hpaired : t.paired = s.paired)
    (hrun : t.runState = s.runState) (hsync : t.hostSync = s.hostSync)
    (hscan : t.scanRecv = s.scanRecv) (hevent : t.perAdvSync = s.perAdvSync) : Spends s t :=
  ⟨hcmd, hpaired, hrun, by simp only [MgrActivation.load, hcmd, hsync, hscan, hevent, Nat.le_refl]⟩

theorem load_scanRecv_none {s : Manager} {info : ScanInfo} (hinfo : s.scanRecv = some info) :
    load { s with scanRecv := none } < load s := by
  simp only [load, hinfo, Option.isSome_none, Option.isSome_some, Bool.toNat_false,
    Bool.toNat_true]
  omega

theorem spends_scanRecv_none (s : Manager) : Spends s { s with scanRecv := none } := by
  refine ⟨rfl, rfl, rfl, ?_⟩
  cases hinfo : s.scanRecv with
  | none => simp only [load, hinfo, Nat.le_refl]
  | some info => exact Nat.le_of_lt (load_scanRecv_none hinfo)

theorem spends_perAdvSync_none (s : Manager) : Spends s { s with perAdvSync := none } := by
  refine ⟨rfl, rfl, rfl, ?_⟩
  simp only [load, Option.isSome_none, Bool.toNat_false]
  omega

theorem scanLoop_spends (accepts : ScanInfo → Bool) (cancel : Bool) (s : Manager) :
    Spends s (scanLoop accepts cancel s).2 ∧
      (cancel = false → ∀ r, (scanLoop accepts cancel s).1 = some r →
        (∃ info, r = .ok info) ∧ load (scanLoop accepts cancel s).2 < load s) := by
  cases cancel with
  | true =>
      refine ⟨spends_of_eq rfl rfl rfl rfl rfl rfl, ?_⟩
      intro h
      cases h
  | false =>
      cases hinfo : s.scanRecv with
      | none =>
          simp only [scanLoop, hinfo, Bool.false_eq_true, if_false]
          refine ⟨Spends.refl s, ?_⟩
          intro _ r h
          cases h
      | some info =>
          simp only [scanLoop, hinfo, Bool.false_eq_true, if_false]
          split
          · refine ⟨(spends_scanRecv_none s).trans (spends_of_eq rfl rfl rfl rfl rfl rfl), ?_⟩
            intro _ r h
            obtain rfl := Option.some.inj h
            exact ⟨⟨info, rfl⟩, load_scanRecv_none hinfo⟩
          · refine ⟨spends_scanRecv_none s, ?_⟩
            intro _ r h
            cases h

/-- At most one scan is started. -/
def Scans (h h' : Host) : Prop :=
  h'.scanStart = h.scanStart ∨ h'.scanStart = rest h.scanStart

theorem scan_spends (accepts : ScanInfo → Bool) (suspended cancel : Bool) (h : Host)
    (s : Manager) :
    let (r, h', s') := scan accepts suspended cancel h s
    Spends s s' ∧ Scans h h' ∧ (suspended = false → cancel = false →
      (∀ ret, r = some (.error ret) →
        h.scanStart 0 ≠ 0 ∧ h' = { h with scanStart := rest h.scanStart }) ∧
        ∀ info, r = some (.ok info) → load s' < load s) := by
  cases suspended with
  | true =>
      refine ⟨(scanLoop_spends accepts cancel s).1, Or.inl rfl, ?_⟩
      intro h
      cases h
  | false =>
      simp only [scan, btLeScanStart, Bool.false_eq_true, if_false]
      rcases eq_or_ne (h.scanStart 0) 0 with hstart | hstart
      · obtain ⟨hspends, hready⟩ := scanLoop_spends accepts cancel { s with scanning := true }
        simp only [hstart, ne_eq, not_true_eq_false, if_false, if_true]
        have hscanning : Spends s { s with scanning := true } :=
          spends_of_eq rfl rfl rfl rfl rfl rfl
        refine ⟨hscanning.trans hspends, Or.inr rfl, fun _ hcancel => ⟨?_, ?_⟩⟩
        · intro ret hret
          obtain ⟨⟨info, hinfo⟩, -⟩ := hready hcancel _ hret
          cases hinfo
        · intro info hinfo
          exact Nat.lt_of_lt_of_le (hready hcancel _ hinfo).2 hscanning.load
      · simp only [ne_eq, hstart, not_false_eq_true, if_true]
        refine ⟨spends_of_eq rfl rfl rfl rfl rfl rfl, Or.inr rfl, fun _ _ => ⟨?_, ?_⟩⟩
        · intro _ _
          exact ⟨trivial, trivial⟩
        · intro info hinfo
          cases hinfo

/-- What a call of `mgr_sync` or `mgr_pair` in `s` comes to. -/
structure Outcome (h : Host) (s : Manager) (r : Callee × Host × Manager) : Prop where
  spends : Spends s r.2.2
  scans : Scans h r.2.1
  ready : ∀ ret, r.1 = .ready ret → r.2.2.calleeState = none
  deleting : r.1 = .deleting → load r.2.2 + 3 ≤ load s ∧ r.2.2.calleeState = s.calleeState

theorem outcome_yields {h h' : Host} {s t : Manager} (hscans : Scans h h') (hspends : Spends s t)
    (label : CalleeLabel) : Outcome h s (yields label h' t) where
  scans := hscans
  spends := hspends.trans (spends_of_eq rfl rfl rfl rfl rfl rfl)
  ready := by
    intro ret hret
    cases hret
  deleting := by
    intro hdeleting
    cases hdeleting

theorem outcome_returns {h h' : Host} {s t : Manager} (hscans : Scans h h')
    (hspends : Spends s t) (ret : Int) : Outcome h s (returns ret h' t) where
  scans := hscans
  spends := hspends.trans (spends_of_eq rfl rfl rfl rfl rfl rfl)
  ready := fun _ _ => rfl
  deleting := by
    intro hdeleting
    cases hdeleting

theorem mgrPairAuth_outcome (cancel : Bool) {h h' : Host} {s t : Manager} (hscans : Scans h h')
    (hspends : Spends s t) :
    Outcome h s (mgrPairAuth cancel h' t) ∧ (mgrPairAuth cancel h' t).1 ≠ .deleting := by
  have hframe : ∀ auth callee, Spends s { t with auth := auth, pairCallee := callee } :=
    fun _ _ => hspends.trans (spends_of_eq rfl rfl rfl rfl rfl rfl)
  have hinfo : ∀ connGetInfo, Scans h { h' with connGetInfo := connGetInfo } := fun _ => hscans
  simp only [mgrPairAuth]
  split
  · exact ⟨outcome_yields hscans (hframe _ _) _, Callee.noConfusion⟩
  · exact ⟨outcome_returns hscans (hframe _ _) _, Callee.noConfusion⟩
  · split
    · split
      · exact ⟨outcome_returns hscans (hframe _ _) _, Callee.noConfusion⟩
      · exact ⟨outcome_returns (hinfo _) (hframe _ _) _, Callee.noConfusion⟩
    · exact ⟨outcome_yields hscans (hframe _ _) _, Callee.noConfusion⟩
    · exact ⟨outcome_returns hscans (hframe _ _) _, Callee.noConfusion⟩

theorem mgrPairConnection_outcome (cancel : Bool) {h h' : Host} {s t : Manager}
    (hscans : Scans h h') (hspends : Spends s t) :
    Outcome h s (mgrPairConnection cancel h' t) ∧
      (mgrPairConnection cancel h' t).1 ≠ .deleting := by
  have hframe : ∀ connected callee,
      Spends s { t with connected := connected, pairCallee := callee } :=
    fun _ _ => hspends.trans (spends_of_eq rfl rfl rfl rfl rfl rfl)
  have hsecurity : ∀ connSetSecurity, Scans h { h' with connSetSecurity := connSetSecurity } :=
    fun _ => hscans
  simp only [mgrPairConnection]
  split
  · exact ⟨outcome_yields hscans (hframe _ _) _, Callee.noConfusion⟩
  · exact ⟨outcome_returns hscans (hframe _ _) _, Callee.noConfusion⟩
  · split
    · exact ⟨outcome_returns hscans (hframe _ _) _, Callee.noConfusion⟩
    · split
      · exact ⟨outcome_returns (hsecurity _) (hframe _ _) _, Callee.noConfusion⟩
      · exact mgrPairAuth_outcome cancel (hsecurity _) (hframe _ _)

theorem mgrPairScan_outcome (cancel : Bool) (h : Host) {s t : Manager} (hspends : Spends s t) :
    Outcome h s (mgrPairScan cancel h t) ∧ (mgrPairScan cancel h t).1 ≠ .deleting := by
  have hscan := scan_spends
    (fun info => acceptsCentral btDataParse info.connectable info.data)
    (t.pairCallee == some .scan) cancel h t
  simp only [mgrPairScan, mgrScanForCentral]
  generalize scan (fun info => acceptsCentral btDataParse info.connectable info.data)
    (t.pairCallee == some .scan) cancel h t = r at hscan
  obtain ⟨r, h', t'⟩ := r
  obtain ⟨hscan, hscans, -⟩ := hscan
  have hframe : ∀ callee conn next,
      Spends s { t' with pairCallee := callee, conn := conn, nextConn := next } :=
    fun _ _ _ => hspends.trans (hscan.trans (spends_of_eq rfl rfl rfl rfl rfl rfl))
  rcases r with _ | ret | info
  · exact ⟨outcome_yields hscans (hframe _ _ _) _, Callee.noConfusion⟩
  · exact ⟨outcome_returns hscans (hframe _ _ _) _, Callee.noConfusion⟩
  · have hconn : ∀ u, u = (if h'.connLeCreate 0 = 0 then
        { t' with pairCallee := none, conn := some t'.nextConn, nextConn := t'.nextConn + 1 }
        else { t' with pairCallee := none }) → Spends s u := by
      rintro u rfl
      split <;> exact hframe _ _ _
    have hcreate : ∀ connLeCreate, Scans h { h' with connLeCreate := connLeCreate } :=
      fun _ => hscans
    simp only
    split
    · exact ⟨outcome_returns (hcreate _) (hconn _ rfl) _, Callee.noConfusion⟩
    · exact mgrPairConnection_outcome cancel (hcreate _) (hconn _ rfl)

theorem mgrPair_outcome {cancel : Bool} {h : Host} {s : Manager} {r : Callee × Host × Manager}
    (hr : mgrPair cancel h s = some r) : Outcome h s r ∧ r.1 ≠ .deleting := by
  simp only [mgrPair] at hr
  split at hr
  · obtain rfl := Option.some.inj hr
    exact mgrPairScan_outcome cancel h (spends_of_eq rfl rfl rfl rfl rfl rfl)
  · obtain rfl := Option.some.inj hr
    exact mgrPairScan_outcome cancel h (Spends.refl s)
  · obtain rfl := Option.some.inj hr
    exact mgrPairConnection_outcome cancel (Or.inl rfl) (Spends.refl s)
  · obtain rfl := Option.some.inj hr
    exact mgrPairAuth_outcome cancel (Or.inl rfl) (Spends.refl s)
  · cases hr
  · cases hr

theorem spends_hostSync {s : Manager} {host : PerAdvSync} (hhost : host ≠ .established) :
    Spends s { s with hostSync := host } := by
  refine ⟨rfl, rfl, rfl, ?_⟩
  simp only [load, if_neg hhost]
  omega

theorem mgrSyncExit_outcome (ret : Int) {h h' : Host} {s t : Manager} (hscans : Scans h h')
    (hspends : Spends s t) (hcallee : t.calleeState = s.calleeState) :
    Outcome h s (mgrSyncExit ret h' t) := by
  have hnone : Spends t { t with hostSync := .none } := spends_hostSync PerAdvSync.noConfusion
  simp only [mgrSyncExit]
  split
  · split
    · rename_i hhost
      have hload : load { t with hostSync := .none } + 3 = load t := by
        simp only [load, hhost, reduceCtorEq, if_false, if_true]
        omega
      refine ⟨hspends.trans hnone, hscans, ?_, fun _ => ⟨?_, hcallee⟩⟩
      · intro ret hret
        cases hret
      · rw [hload]
        exact hspends.load
    · exact outcome_returns hscans (hspends.trans hnone) ret
  · exact outcome_returns hscans hspends ret

theorem mgrSyncEvent_outcome (cancel : Bool) {h h' : Host} {s t : Manager} (hscans : Scans h h')
    (hspends : Spends s t) (hcallee : t.calleeState = s.calleeState) :
    Outcome h s (mgrSyncEvent cancel h' t) := by
  have htaken : ∀ led adv calls, Spends s
      { t with perAdvSync := none, ledSync := led, adv := adv, calls := calls } :=
    fun _ _ _ => (hspends.trans (spends_perAdvSync_none t)).trans
      (spends_of_eq rfl rfl rfl rfl rfl rfl)
  simp only [mgrSyncEvent]
  split
  · exact mgrSyncExit_outcome _ hscans hspends hcallee
  · split
    · exact outcome_yields hscans hspends _
    · split
      · exact outcome_yields hscans (htaken _ _ _) _
      · exact mgrSyncExit_outcome _ hscans (htaken _ _ _) hcallee
      · rename_i time data _
        obtain ⟨adv, calls, hdata⟩ := recvData_eq time data { t with perAdvSync := none }
        rw [hdata]
        exact outcome_yields hscans (htaken _ _ _) _

theorem mgrSyncEvent_pending (cancel : Bool) (h : Host) {s : Manager}
    (hhost : s.hostSync = .pending) : (mgrSyncEvent cancel h s).1 ≠ .deleting := by
  have hexit : ∀ ret t, t.hostSync = .pending → (mgrSyncExit ret h t).1 ≠ .deleting := by
    intro ret t ht
    simp only [mgrSyncExit, ht, reduceCtorEq, if_false]
    split <;> exact Callee.noConfusion
  simp only [mgrSyncEvent]
  split
  · exact hexit _ _ hhost
  · split
    · exact Callee.noConfusion
    · split
      · exact Callee.noConfusion
      · exact hexit _ _ hhost
      · exact Callee.noConfusion

theorem Outcome.after {h : Host} {s t : Manager} {r : Callee × Host × Manager}
    (hspends : Spends s t) (hr : Outcome h t r) (hne : r.1 ≠ .deleting) : Outcome h s r :=
  ⟨hspends.trans hr.spends, hr.scans, hr.ready, fun hdeleting => absurd hdeleting hne⟩

theorem mgrSyncCreate_outcome (cancel : Bool) {h h' : Host} (hscans : Scans h h') (s : Manager) :
    Outcome h s (mgrSyncCreate cancel h' s) ∧ (mgrSyncCreate cancel h' s).1 ≠ .deleting := by
  have hsync : Spends s { s with sync := false } := spends_of_eq rfl rfl rfl rfl rfl rfl
  have hpending : Spends s { s with sync := true, hostSync := .pending } :=
    (spends_hostSync PerAdvSync.noConfusion).trans (spends_of_eq rfl rfl rfl rfl rfl rfl)
  have hcreate : ∀ results, Scans h { h' with perAdvSyncCreate := results } := fun _ => hscans
  simp only [mgrSyncCreate]
  split
  · exact ⟨mgrSyncExit_outcome _ (hcreate _) hsync rfl, Callee.noConfusion⟩
  · exact ⟨mgrSyncEvent_outcome cancel (hcreate _) hpending rfl, mgrSyncEvent_pending cancel _ rfl⟩

theorem mgrSyncScan_outcome (cancel : Bool) (h : Host) {s t : Manager} (hspends : Spends s t) :
    Outcome h s (mgrSyncScan cancel h t) ∧ (mgrSyncScan cancel h t).1 ≠ .deleting ∧
      (t.syncScan = false → cancel = false → ∀ ret, (mgrSyncScan cancel h t).1 = .ready ret →
        load (mgrSyncScan cancel h t).2.2 < load s ∨ (h.scanStart 0 ≠ 0 ∧
          (mgrSyncScan cancel h t).2.1 = { h with scanStart := rest h.scanStart })) := by
  have hscan := scan_spends (fun info => info.interval != 0 && info.addr == t.addr) t.syncScan
    cancel h t
  simp only [mgrSyncScan, mgrScanForSync]
  generalize scan (fun info => info.interval != 0 && info.addr == t.addr) t.syncScan
    cancel h t = r at hscan
  obtain ⟨r, h', t'⟩ := r
  obtain ⟨hscan, hscans, hready⟩ := hscan
  have hframe : ∀ syncScan sid sync, Spends t' { t' with
      syncScan := syncScan, sid := sid, sync := sync } :=
    fun _ _ _ => spends_of_eq rfl rfl rfl rfl rfl rfl
  have hafter := hspends.trans hscan
  rcases r with _ | ret | info
  · refine ⟨outcome_yields hscans (hafter.trans (hframe _ _ _)) _, Callee.noConfusion, ?_⟩
    intro _ _ ret hret
    cases hret
  · refine ⟨outcome_returns hscans (hafter.trans (hframe _ _ _)) _, Callee.noConfusion, ?_⟩
    intro hsuspended hcancel ret' _
    exact Or.inr ((hready hsuspended hcancel).1 ret rfl)
  · obtain ⟨hcreate, hne⟩ := mgrSyncCreate_outcome cancel hscans
      { t' with syncScan := false, sid := info.sid }
    have hfound := hcreate.after (hframe false info.sid t'.sync) hne
    refine ⟨hfound.after hafter hne, hne, ?_⟩
    intro hsuspended hcancel ret _
    have htaken := (hready hsuspended hcancel).2 info rfl
    exact Or.inl (Nat.lt_of_le_of_lt hfound.spends.load (Nat.lt_of_lt_of_le htaken hspends.load))

theorem mgrSync_outcome {cancel : Bool} {h : Host} {s : Manager} {r : Callee × Host × Manager}
    (hr : mgrSync cancel h s = some r) :
    Outcome h s r ∧ (r.1 = .deleting → s.calleeState = some .syncEvent) ∧
      (s.calleeState = none → cancel = false → ∀ ret, r.1 = .ready ret →
        load r.2.2 < load s ∨
          (h.scanStart 0 ≠ 0 ∧ r.2.1 = { h with scanStart := rest h.scanStart })) := by
  simp only [mgrSync] at hr
  split at hr
  · obtain rfl := Option.some.inj hr
    obtain ⟨houtcome, hne, hready⟩ := mgrSyncScan_outcome cancel h (s := s)
      (t := { s with sync := false, sid := 0, syncScan := false })
      (spends_of_eq rfl rfl rfl rfl rfl rfl)
    exact ⟨houtcome, fun hdeleting => absurd hdeleting hne, fun _ => hready rfl⟩
  · rename_i hlabel
    obtain rfl := Option.some.inj hr
    obtain ⟨houtcome, hne, -⟩ := mgrSyncScan_outcome cancel h (Spends.refl s)
    refine ⟨houtcome, fun hdeleting => absurd hdeleting hne, fun hfresh => ?_⟩
    rw [hlabel] at hfresh
    cases hfresh
  · rename_i hlabel
    obtain rfl := Option.some.inj hr
    refine ⟨mgrSyncEvent_outcome cancel (Or.inl rfl) (Spends.refl s) rfl, fun _ => hlabel,
      fun hfresh => ?_⟩
    rw [hlabel] at hfresh
    cases hfresh
  · cases hr
  · cases hr
  · cases hr

/-- The resume points fit the place at which `mgr_run` stands. -/
def Fits (c : Activation) : Prop :=
  match c.place with
  | .begin | .loop => c.mgr.calleeState = none
  | .sync => c.mgr.runState = some .sync ∧
      (c.mgr.calleeState = some .syncScan ∨ c.mgr.calleeState = some .syncEvent)
  | .pair => c.mgr.calleeState = some .pairScan ∨ c.mgr.calleeState = some .pairConnection ∨
      c.mgr.calleeState = some .pairAuth

/-- There is a central and no command, and no scan will be started any more. -/
def Spins (c : Activation) : Prop :=
  c.place = .loop ∧ c.mgr.cmd = .none ∧ c.mgr.paired ≠ none ∧ ∀ n, c.host.scanStart n ≠ 0

def weight (c : Activation) : Nat :=
  load c.mgr + c.outer + c.mgr.calleeState.isSome.toNat + if c.place = .begin then 1 else 0

theorem giveBack_next {c d : Activation} {h : Host} {s : Manager}
    (hd : giveBack c h s = .inl d) : Fits d ∧ weight d < load s + c.outer := by
  simp only [giveBack] at hd
  split at hd
  · cases hd
  · rename_i outer houter
    obtain rfl := Sum.inl.inj hd
    have hload := (spends_perAdvSync_none s).load
    have heq : load { s with perAdvSync := none, calleeState := none } =
        load { s with perAdvSync := none } := rfl
    refine ⟨rfl, ?_⟩
    simp only [weight, heq, houter, Option.isSome_none, Bool.toNat_false, reduceCtorEq, if_false]
    omega

theorem goOn_next {c d : Activation} {label : RunLabel} {s : Manager}
    {r : Callee × Host × Manager} (hr : Outcome c.host s r) (hd : goOn c label (some r) = .inl d)
    (hdeleting : r.1 = .deleting → s.runState = some .sync ∧ s.calleeState = some .syncEvent) :
    Fits d ∧ (weight d < load s + c.outer + s.calleeState.isSome.toNat ∨
      ((∃ ret, r.1 = .ready ret) ∧ s.calleeState = none ∧ weight d = load r.2.2 + c.outer ∧
        d.host = r.2.1)) := by
  obtain ⟨callee, h, t⟩ := r
  cases callee with
  | pending =>
      obtain ⟨hfits, hweight⟩ := giveBack_next hd
      have hload : load { t with runState := some label } ≤ load s := hr.spends.load
      exact ⟨hfits, Or.inl (by omega)⟩
  | ready ret =>
      obtain rfl := Sum.inl.inj hd
      have hcallee : t.calleeState = none := hr.ready ret rfl
      have hload : load t ≤ load s := hr.spends.load
      refine ⟨hcallee, ?_⟩
      have hweight : weight ⟨c.outer, .loop, h, t⟩ = load t + c.outer := by
        simp only [weight, hcallee, Option.isSome_none, Bool.toNat_false, reduceCtorEq, if_false]
        omega
      cases hfresh : s.calleeState with
      | none => exact Or.inr ⟨⟨ret, rfl⟩, rfl, hweight, rfl⟩
      | some label =>
          refine Or.inl ?_
          rw [hweight]
          simp only [Option.isSome_some, Bool.toNat_true]
          omega
  | deleting =>
      obtain ⟨hrun, hevent⟩ := hdeleting rfl
      obtain ⟨hload, hcallee⟩ := hr.deleting rfl
      obtain rfl := Sum.inl.inj hd
      have hrun' : t.runState = some .sync := hr.spends.run.trans hrun
      have hcallee' : t.calleeState = some .syncEvent := hcallee.trans hevent
      have hload : load t + 3 ≤ load s := hload
      have hlent : load { t with perAdvSync := some .term } ≤ load t + 1 := by
        simp only [load, Option.isSome_some, Bool.toNat_true]
        omega
      generalize hu : { t with perAdvSync := some SyncEvent.term } = u at hlent ⊢
      have hrunU : u.runState = some .sync := by
        rw [← hu]
        exact hrun'
      have hcalleeU : u.calleeState = some .syncEvent := by
        rw [← hu]
        exact hcallee'
      rw [hrun', placeOf]
      refine ⟨⟨hrunU, Or.inr hcalleeU⟩, Or.inl ?_⟩
      simp only [weight, hcalleeU, hevent, Option.isSome_some, Bool.toNat_true, reduceCtorEq,
        if_false]
      omega

/-- How many scans will fail before one is started. -/
noncomputable def failures (c : Activation) : Nat :=
  waits (· = 0) c.host.scanStart

/-- A round leaves less to do, or it is one of the scans that fail before one is
started. -/
def Less (c d : Activation) : Prop :=
  Prod.Lex (· < ·) (· < ·) (weight c, failures c) (weight d, failures d)

theorem less_of_weight {c d : Activation} (h : weight c < weight d) : Less c d :=
  Prod.Lex.left _ _ h

theorem round_sync {c d : Activation} (hc : Fits c) (hplace : c.place = .sync)
    (hd : goOn c .sync (mgrSync c.mgr.cancelCommand c.host c.mgr) = .inl d) :
    Fits d ∧ Less d c := by
  rw [Fits, hplace] at hc
  obtain ⟨hrun, hlabel⟩ := hc
  cases hr : mgrSync c.mgr.cancelCommand c.host c.mgr with
  | none =>
      rw [hr] at hd
      cases hd
  | some r =>
      rw [hr] at hd
      obtain ⟨houtcome, hevent, -⟩ := mgrSync_outcome hr
      obtain ⟨hfits, hweight⟩ := goOn_next houtcome hd fun h => ⟨hrun, hevent h⟩
      refine ⟨hfits, less_of_weight ?_⟩
      rcases hweight with hweight | ⟨-, hnone, -⟩
      · simp only [weight, hplace, reduceCtorEq, if_false] at hweight ⊢
        omega
      · rcases hlabel with hlabel | hlabel <;> rw [hlabel] at hnone <;> cases hnone

theorem round_pair {c d : Activation} (hc : Fits c) (hplace : c.place = .pair)
    (hd : goOn c .pair (mgrPair c.mgr.cancelCommand c.host c.mgr) = .inl d) :
    Fits d ∧ Less d c := by
  rw [Fits, hplace] at hc
  cases hr : mgrPair c.mgr.cancelCommand c.host c.mgr with
  | none =>
      rw [hr] at hd
      cases hd
  | some r =>
      rw [hr] at hd
      obtain ⟨houtcome, hne⟩ := mgrPair_outcome hr
      obtain ⟨hfits, hweight⟩ := goOn_next houtcome hd fun h => absurd h hne
      refine ⟨hfits, less_of_weight ?_⟩
      rcases hweight with hweight | ⟨-, hnone, -⟩
      · simp only [weight, hplace, reduceCtorEq, if_false] at hweight ⊢
        omega
      · rcases hc with hlabel | hlabel | hlabel <;> rw [hlabel] at hnone <;> cases hnone

theorem round_loop_idle {c : Activation} (hplace : c.place = .loop) (hcmd : c.mgr.cmd = .none)
    (hpaired : c.mgr.paired = none) :
    round c = giveBack c c.host { c.mgr with cancelCommand := false, runState := some .idle } := by
  simp only [round, hplace, hcmd, hpaired]

theorem round_loop_paired {c : Activation} (hplace : c.place = .loop) (hcmd : c.mgr.cmd = .none)
    {addr : Addr} (hpaired : c.mgr.paired = some addr) :
    round c = goOn c .sync
      (mgrSync false c.host { c.mgr with cancelCommand := false, addr := addr }) := by
  simp only [round, hplace, hcmd, hpaired]

theorem round_loop_command {c : Activation} (hplace : c.place = .loop)
    (hcmd : c.mgr.cmd = .pair) :
    round c = goOn c .pair (mgrPair false c.host { c.mgr with
      cancelCommand := false, cmd := .none, pairsTaken := c.mgr.pairsTaken + 1 }) := by
  simp only [round, hplace, hcmd]

theorem Fits.loop {c : Activation} (hc : Fits c) (hplace : c.place = .loop) :
    c.mgr.calleeState = none ∧ weight c = load c.mgr + c.outer := by
  rw [Fits, hplace] at hc
  refine ⟨hc, ?_⟩
  simp only [weight, hplace, hc, Option.isSome_none, Bool.toNat_false, reduceCtorEq, if_false]
  omega

theorem round_command {c d : Activation} (hc : Fits c) (hplace : c.place = .loop)
    (hcmd : c.mgr.cmd = .pair) (hd : round c = .inl d) : Fits d ∧ Less d c := by
  obtain ⟨hcallee, hgoal⟩ := hc.loop hplace
  rw [round_loop_command hplace hcmd] at hd
  generalize hs : { c.mgr with
    cancelCommand := false, cmd := MgrCmd.none, pairsTaken := c.mgr.pairsTaken + 1 } = s at hd
  have hcallee : s.calleeState = none := by
    rw [← hs]
    exact hcallee
  have hload : load s < load c.mgr := by
    rw [← hs]
    simp only [load, hcmd, reduceCtorEq, if_false, if_true]
    omega
  cases hr : mgrPair false c.host s with
  | none =>
      rw [hr] at hd
      cases hd
  | some r =>
      rw [hr] at hd
      obtain ⟨houtcome, hne⟩ := mgrPair_outcome hr
      obtain ⟨hfits, hweight⟩ := goOn_next houtcome hd fun h => absurd h hne
      have hspent := houtcome.spends.load
      refine ⟨hfits, less_of_weight ?_⟩
      rw [hgoal]
      rcases hweight with hweight | ⟨-, -, hweight, -⟩
      · simp only [hcallee, Option.isSome_none, Bool.toNat_false] at hweight
        omega
      · omega

theorem round_paired {c d : Activation} (hc : Fits c) (hplace : c.place = .loop)
    (hcmd : c.mgr.cmd = .none) {addr : Addr} (hpaired : c.mgr.paired = some addr)
    (hstart : ∃ n, c.host.scanStart n = 0) (hd : round c = .inl d) : Fits d ∧ Less d c := by
  obtain ⟨hcallee, hgoal⟩ := hc.loop hplace
  rw [round_loop_paired hplace hcmd hpaired] at hd
  generalize hs : { c.mgr with cancelCommand := false, addr := addr } = s at hd
  have hcallee : s.calleeState = none := by
    rw [← hs]
    exact hcallee
  have hload : load s = load c.mgr := by
    rw [← hs]
    rfl
  cases hr : mgrSync false c.host s with
  | none =>
      rw [hr] at hd
      cases hd
  | some r =>
      rw [hr] at hd
      obtain ⟨houtcome, hevent, hready⟩ := mgrSync_outcome hr
      have hne : r.1 ≠ .deleting := by
        intro hdeleting
        rw [hcallee] at hevent
        cases hevent hdeleting
      obtain ⟨hfits, hweight⟩ := goOn_next houtcome hd fun h => absurd h hne
      have hspent := houtcome.spends.load
      refine ⟨hfits, ?_⟩
      rcases hweight with hweight | ⟨⟨ret, hret⟩, -, hweight, hhost⟩
      · apply less_of_weight
        simp only [hcallee, Option.isSome_none, Bool.toNat_false] at hweight
        omega
      · rcases hready hcallee rfl ret hret with hless | ⟨hfirst, hpopped⟩
        · apply less_of_weight
          omega
        · have hfailures : failures d < failures c := by
            rw [failures, failures, hhost, hpopped]
            exact waits_rest_lt hfirst hstart
          rcases Nat.lt_or_eq_of_le (show weight d ≤ weight c by omega) with hlt | heq
          · exact less_of_weight hlt
          · rw [Less, heq]
            exact Prod.Lex.right _ hfailures

theorem round_idle {c d : Activation} (hc : Fits c) (hplace : c.place = .loop)
    (hcmd : c.mgr.cmd = .none) (hpaired : c.mgr.paired = none) (hd : round c = .inl d) :
    Fits d ∧ Less d c := by
  obtain ⟨-, hgoal⟩ := hc.loop hplace
  rw [round_loop_idle hplace hcmd hpaired] at hd
  obtain ⟨hfits, hweight⟩ := giveBack_next hd
  refine ⟨hfits, less_of_weight ?_⟩
  rw [hgoal]
  exact hweight

theorem round_begin {c d : Activation} (hc : Fits c) (hplace : c.place = .begin)
    (hd : round c = .inl d) : Fits d ∧ Less d c := by
  rw [Fits, hplace] at hc
  simp only [round, hplace] at hd
  split at hd
  · obtain ⟨hfits, hweight⟩ := giveBack_next hd
    refine ⟨hfits, less_of_weight ?_⟩
    simp only [weight, hplace, if_true] at hweight ⊢
    omega
  · obtain rfl := Sum.inl.inj hd
    refine ⟨hc, less_of_weight ?_⟩
    simp only [weight, hplace, if_true, reduceCtorEq, if_false]
    omega

theorem round_next {c d : Activation} (hc : Fits c) (hspins : ¬ Spins c)
    (hd : round c = .inl d) : Fits d ∧ Less d c := by
  cases hplace : c.place with
  | begin => exact round_begin hc hplace hd
  | loop =>
      cases hcmd : c.mgr.cmd with
      | none =>
          cases hpaired : c.mgr.paired with
          | none => exact round_idle hc hplace hcmd hpaired hd
          | some addr =>
              refine round_paired hc hplace hcmd hpaired ?_ hd
              by_contra hnone
              have hne : c.mgr.paired ≠ none := by
                rw [hpaired]
                exact Option.some_ne_none addr
              exact hspins ⟨hplace, hcmd, hne, not_exists.mp hnone⟩
      | pair => exact round_command hc hplace hcmd hd
  | sync =>
      simp only [round, hplace] at hd
      exact round_sync hc hplace hd
  | pair =>
      simp only [round, hplace] at hd
      exact round_pair hc hplace hd

theorem mgrSyncScan_of_start {h : Host} (hstart : h.scanStart 0 ≠ 0) (cancel : Bool) {t : Manager}
    (hfresh : t.syncScan = false) :
    mgrSyncScan cancel h t = returns (h.scanStart 0) { h with scanStart := rest h.scanStart }
      { t with scanning := false } := by
  have hsame : { t with scanning := false, syncScan := false } = { t with scanning := false } := by
    rw [← hfresh]
  simp only [mgrSyncScan, mgrScanForSync, scan, btLeScanStart, hfresh, Bool.false_eq_true, hstart,
    ne_eq, not_false_eq_true, if_true, if_false, btLeScanStop, Option.isNone_some, hsame]

theorem round_spins {c : Activation} (hc : Fits c) (hspins : Spins c) :
    ∃ d, round c = .inl d ∧ Fits d ∧ Spins d := by
  obtain ⟨hplace, hcmd, hpaired, hfails⟩ := hspins
  obtain ⟨hcallee, -⟩ := hc.loop hplace
  obtain ⟨addr, haddr⟩ := Option.ne_none_iff_exists'.mp hpaired
  rw [round_loop_paired hplace hcmd haddr]
  simp only [mgrSync, hcallee]
  rw [mgrSyncScan_of_start (hfails 0) false rfl]
  exact ⟨_, rfl, rfl, rfl, hcmd, hpaired, fun n => hfails (n + 1)⟩

theorem round_fits {c d : Activation} (hc : Fits c) (hd : round c = .inl d) : Fits d := by
  rcases Classical.em (Spins c) with hspins | hspins
  · obtain ⟨e, he, hfits, -⟩ := round_spins hc hspins
    obtain rfl := Sum.inl.inj (hd.symm.trans he)
    exact hfits
  · exact (round_next hc hspins hd).1

theorem giveBack_defined (c : Activation) (h : Host) (s : Manager) :
    giveBack c h s ≠ .inr none := by
  simp only [giveBack]
  split
  · exact fun h => Option.some_ne_none _ (Sum.inr.inj h)
  · exact Sum.inl_ne_inr

theorem goOn_defined (c : Activation) (label : RunLabel) {called : Option (Callee × Host × Manager)}
    (hcalled : called ≠ none) : goOn c label called ≠ .inr none := by
  obtain ⟨⟨callee, h, s⟩, rfl⟩ := Option.ne_none_iff_exists'.mp hcalled
  cases callee with
  | pending => exact giveBack_defined c h _
  | ready ret => exact Sum.inl_ne_inr
  | deleting => exact Sum.inl_ne_inr

theorem round_defined {c : Activation} (hc : Fits c) : round c ≠ .inr none := by
  cases hplace : c.place with
  | begin =>
      simp only [round, hplace]
      split
      · exact giveBack_defined c c.host c.mgr
      · exact Sum.inl_ne_inr
  | loop =>
      obtain ⟨hcallee, -⟩ := hc.loop hplace
      cases hcmd : c.mgr.cmd with
      | none =>
          cases hpaired : c.mgr.paired with
          | none =>
              rw [round_loop_idle hplace hcmd hpaired]
              exact giveBack_defined c c.host _
          | some addr =>
              rw [round_loop_paired hplace hcmd hpaired]
              apply goOn_defined
              simp only [mgrSync, hcallee]
              exact Option.some_ne_none _
      | pair =>
          rw [round_loop_command hplace hcmd]
          apply goOn_defined
          simp only [mgrPair, hcallee]
          exact Option.some_ne_none _
  | sync =>
      rw [Fits, hplace] at hc
      simp only [round, hplace]
      apply goOn_defined
      rcases hc.2 with hlabel | hlabel <;> simp only [mgrSync, hlabel] <;>
        exact Option.some_ne_none _
  | pair =>
      rw [Fits, hplace] at hc
      simp only [round, hplace]
      apply goOn_defined
      rcases hc with hlabel | hlabel | hlabel <;> simp only [mgrPair, hlabel] <;>
        exact Option.some_ne_none _

theorem activation_fits (host : Host) (tree : CoroutineTree) : Fits (activation host tree) := by
  obtain ⟨s, hs⟩ := tree
  simp only [activation, Fits]
  cases hrun : s.runState with
  | none =>
      rw [LabelsFit, hrun] at hs
      exact hs
  | some label =>
      rw [LabelsFit, hrun] at hs
      cases label with
      | idle => exact hs
      | sync => exact ⟨rfl, hs⟩
      | pair => exact hs

/-- `mgr_run` suspends or returns after finitely many rounds. -/
def GivesBack (host : Host) (tree : CoroutineTree) : Prop :=
  ∃ rounds h s, loop round rounds (activation host tree) = some (some (h, s))

theorem givesBack_iff_ends (host : Host) (tree : CoroutineTree) :
    GivesBack host tree ↔ Ends round (activation host tree) := by
  constructor
  · rintro ⟨rounds, h, s, hresult⟩
    exact ⟨rounds, some (h, s), hresult⟩
  · rintro ⟨rounds, result, hresult⟩
    have hdefined : result ≠ none := by
      apply loop_invariant (fun _ _ => round_fits) ?_ (activation_fits host tree) hresult
      rintro c r hc hr rfl
      exact round_defined hc hr
    obtain ⟨⟨h, s⟩, rfl⟩ := Option.ne_none_iff_exists'.mp hdefined
    exact ⟨rounds, h, s, hresult⟩

theorem ends_iff_not_spins {c : Activation} (hc : Fits c) :
    Ends round c ↔ ∀ d, Reaches round c d → ¬ Spins d := by
  have hwf : WellFounded (Prod.Lex (· < · : Nat → Nat → Prop) (· < · : Nat → Nat → Prop)) :=
    (Prod.lex ⟨_, wellFounded_lt⟩ ⟨_, wellFounded_lt⟩).wf
  apply ends_iff hwf (fun c => (weight c, failures c)) (fun _ _ => round_fits) ?_ ?_ hc
  · intro c hc hspins
    obtain ⟨d, hround, -, hd⟩ := round_spins hc hspins
    exact ⟨d, hround, hd⟩
  · intro c d hc hspins hround
    exact (round_next hc hspins hround).2

/-- An activation ends exactly when it does not come to the head of the loop with
a central to follow while every scan from there on fails to start. -/
theorem givesBack_iff (host : Host) (tree : CoroutineTree) :
    GivesBack host tree ↔ ∀ c, Reaches round (activation host tree) c → ¬ Spins c := by
  rw [givesBack_iff_ends]
  exact ends_iff_not_spins (activation_fits host tree)

theorem labelsFit_boot (bonded : Option Addr) : LabelsFit (mgrBoot bonded) := by
  rfl

theorem round_boot {host : Host} (hregister : host.authInfoCbRegister = 0)
    (bonded : Option Addr) : round (activation host ⟨mgrBoot bonded, labelsFit_boot bonded⟩) =
      .inl ⟨0, .loop, host, mgrBoot bonded⟩ := by
  have hplace : (activation host ⟨mgrBoot bonded, labelsFit_boot bonded⟩).place = .begin := rfl
  simp only [round, hplace]
  exact if_neg (not_not.mpr hregister)

/-- A bonded central is to be followed, and the controller refuses every scan. -/
theorem scan_never_started :
    ¬ GivesBack ⟨0, fun _ => -11, fun _ => 0, fun _ => 0, fun _ => 0, fun _ => 0⟩
      ⟨mgrBoot (some 5), labelsFit_boot (some 5)⟩ := by
  rw [givesBack_iff_ends, ends_iff_not_spins (activation_fits _ _)]
  intro hnever
  apply hnever _ (.head (round_boot rfl (some 5)) (.refl _))
  exact ⟨rfl, rfl, Option.some_ne_none 5, fun _ => (by decide : (-11 : Int) ≠ 0)⟩

theorem giveBack_keeps {c d : Activation} {h : Host} {s : Manager} (hd : giveBack c h s = .inl d) :
    d.mgr.paired = s.paired ∧ d.host = h := by
  simp only [giveBack] at hd
  split at hd
  · cases hd
  · obtain rfl := Sum.inl.inj hd
    exact ⟨rfl, rfl⟩

theorem goOn_keeps {c d : Activation} {label : RunLabel} {s : Manager}
    {called : Option (Callee × Host × Manager)}
    (houtcome : ∀ r, called = some r → Outcome c.host s r)
    (hd : goOn c label called = .inl d) :
    d.mgr.paired = s.paired ∧ Scans c.host d.host := by
  cases called with
  | none => cases hd
  | some r =>
      obtain ⟨hspends, hscans, -, -⟩ := houtcome r rfl
      obtain ⟨callee, h, t⟩ := r
      cases callee with
      | pending =>
          obtain ⟨hpaired, hhost⟩ := giveBack_keeps hd
          rw [hhost]
          exact ⟨hpaired.trans hspends.paired, hscans⟩
      | ready ret =>
          obtain rfl := Sum.inl.inj hd
          exact ⟨hspends.paired, hscans⟩
      | deleting =>
          obtain rfl := Sum.inl.inj hd
          exact ⟨hspends.paired, hscans⟩

theorem round_keeps {c d : Activation} (hd : round c = .inl d) :
    d.mgr.paired = c.mgr.paired ∧ Scans c.host d.host := by
  have hgiveBack : ∀ s, s.paired = c.mgr.paired → giveBack c c.host s = .inl d →
      d.mgr.paired = c.mgr.paired ∧ Scans c.host d.host := by
    intro s hs hd
    obtain ⟨hpaired, hhost⟩ := giveBack_keeps hd
    exact ⟨hpaired.trans hs, Or.inl (congrArg Host.scanStart hhost)⟩
  cases hplace : c.place with
  | begin =>
      simp only [round, hplace] at hd
      split at hd
      · exact hgiveBack c.mgr rfl hd
      · obtain rfl := Sum.inl.inj hd
        exact ⟨rfl, Or.inl rfl⟩
  | loop =>
      cases hcmd : c.mgr.cmd with
      | none =>
          cases hpaired : c.mgr.paired with
          | none =>
              rw [round_loop_idle hplace hcmd hpaired] at hd
              rw [← hpaired]
              apply hgiveBack _ _ hd
              rfl
          | some addr =>
              rw [round_loop_paired hplace hcmd hpaired] at hd
              rw [← hpaired]
              obtain ⟨hbond, hscans⟩ := goOn_keeps (fun _ hr => (mgrSync_outcome hr).1) hd
              exact ⟨hbond, hscans⟩
      | pair =>
          rw [round_loop_command hplace hcmd] at hd
          obtain ⟨hbond, hscans⟩ := goOn_keeps (fun _ hr => (mgrPair_outcome hr).1) hd
          exact ⟨hbond, hscans⟩
  | sync =>
      simp only [round, hplace] at hd
      exact goOn_keeps (fun _ hr => (mgrSync_outcome hr).1) hd
  | pair =>
      simp only [round, hplace] at hd
      exact goOn_keeps (fun _ hr => (mgrPair_outcome hr).1) hd

/-- A scan is started again and again. -/
def Host.StartsAgain (h : Host) : Prop :=
  ∀ n, ∃ m, n ≤ m ∧ h.scanStart m = 0

theorem Scans.startsAgain {h h' : Host} (hscans : Scans h h') (hstarts : h.StartsAgain) :
    h'.StartsAgain := by
  intro n
  rcases hscans with hsame | hpopped
  · rw [hsame]
    exact hstarts n
  · obtain ⟨m, hle, hm⟩ := hstarts (n + 1)
    obtain ⟨k, rfl⟩ := Nat.exists_eq_add_of_le' (Nat.le_trans (Nat.le_add_left 1 n) hle)
    refine ⟨k, Nat.le_of_succ_le_succ hle, ?_⟩
    rw [hpopped]
    exact hm

theorem reaches_keeps {c d : Activation} (hreach : Reaches round c d) :
    d.mgr.paired = c.mgr.paired ∧ (c.host.StartsAgain → d.host.StartsAgain) := by
  induction hreach with
  | refl c => exact ⟨rfl, id⟩
  | head hround _ ih =>
      obtain ⟨hpaired, hscans⟩ := round_keeps hround
      exact ⟨ih.1.trans hpaired, fun hstarts => ih.2 (hscans.startsAgain hstarts)⟩

theorem givesBack_of_startsAgain {host : Host} (hstarts : host.StartsAgain)
    (tree : CoroutineTree) : GivesBack host tree := by
  rw [givesBack_iff_ends, ends_iff_not_spins (activation_fits host tree)]
  rintro d hreach ⟨-, -, -, hfails⟩
  obtain ⟨m, -, hm⟩ := (reaches_keeps hreach).2 hstarts 0
  exact hfails m hm

theorem givesBack_of_unpaired (host : Host) {tree : CoroutineTree}
    (hpaired : tree.val.paired = none) : GivesBack host tree := by
  rw [givesBack_iff_ends, ends_iff_not_spins (activation_fits host tree)]
  rintro d hreach ⟨-, -, hne, -⟩
  exact hne ((reaches_keeps hreach).1.trans hpaired)

end ZeusLe.MgrActivation
