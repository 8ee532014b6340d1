import ZeusLe.Library.Run
import ZeusLe.MgrCoroutine

/-! What becomes of a request to pair: the resume points of the coroutines. -/

namespace ZeusLe.PairRequest

open ZeusLe.Library.Run
open ZeusLe.Mgr
open ZeusLe.MgrCoroutine

def PairScanning (s : Manager) : Prop :=
  s.calleeState = some .pairScan ∧ s.pairCallee = some .scan ∧ s.scanning = true

def PairSuspended (s : Manager) : Prop :=
  PairScanning s ∨
    ((s.calleeState = some .pairConnection ∨ s.calleeState = some .pairAuth) ∧
      s.scanning = false)

def SyncSuspended (s : Manager) : Prop :=
  (s.calleeState = some .syncScan ∧ s.syncScan = true ∧ s.scanning = true) ∨
    (s.calleeState = some .syncEvent ∧ s.sync = true ∧ s.scanning = false)

/-- Neither `mgr_sync` nor `mgr_pair` is suspended. -/
def Finished (s : Manager) : Prop :=
  s.calleeState = none ∧ s.scanning = false

def Resumable (s : Manager) : Prop :=
  (s.runState = some .idle ∧ Finished s) ∨ (s.runState = some .sync ∧ SyncSuspended s) ∨
    (s.runState = some .pair ∧ PairSuspended s)

def NoLoans (s : Manager) : Prop :=
  s.scanRecv = none ∧ s.perAdvSync = none ∧ s.connected = none ∧ s.auth = none

/-- The manager between two activations. -/
structure Consistent (s : Manager) : Prop where
  resume : Resumable s
  cmd : s.cmd = .none
  cancel : s.cancelCommand = false
  loans : NoLoans s

/-- The command was taken once, and `mgr_run` is suspended in a `mgr_pair` that
has begun since and scans for a central. -/
structure Pairing (s t : Manager) : Prop where
  run : t.runState = some .pair
  pair : PairScanning t
  fresh : t.conn = none
  begun : t.pairsBegun = s.pairsBegun + 1
  taken : t.pairsTaken = s.pairsTaken + 1
  cmd : t.cmd = .none
  cancel : t.cancelCommand = false

/-- A coroutine only takes from a loan. -/
def TakenFrom {α : Type} (before after : Option α) : Prop :=
  after = before ∨ after = none

theorem TakenFrom.trans {α : Type} {x y z : Option α} (hxy : TakenFrom x y)
    (hyz : TakenFrom y z) : TakenFrom x z := by
  rcases hyz with rfl | rfl
  · exact hxy
  · exact Or.inr rfl

theorem TakenFrom.of_none {α : Type} {y : Option α} (h : TakenFrom none y) : y = none :=
  h.elim id id

structure LoansLe (s t : Manager) : Prop where
  scanRecv : TakenFrom s.scanRecv t.scanRecv
  perAdvSync : TakenFrom s.perAdvSync t.perAdvSync
  connected : TakenFrom s.connected t.connected
  auth : TakenFrom s.auth t.auth

theorem LoansLe.refl (s : Manager) : LoansLe s s :=
  ⟨Or.inl rfl, Or.inl rfl, Or.inl rfl, Or.inl rfl⟩

theorem LoansLe.trans {s t u : Manager} (hst : LoansLe s t) (htu : LoansLe t u) :
    LoansLe s u :=
  ⟨hst.scanRecv.trans htu.scanRecv, hst.perAdvSync.trans htu.perAdvSync,
    hst.connected.trans htu.connected, hst.auth.trans htu.auth⟩

structure Keeps (s t : Manager) : Prop where
  cmd : t.cmd = s.cmd
  cancel : t.cancelCommand = s.cancelCommand
  taken : t.pairsTaken = s.pairsTaken
  paired : t.paired = s.paired
  loans : LoansLe s t

theorem Keeps.trans {s t u : Manager} (hst : Keeps s t) (htu : Keeps t u) : Keeps s u :=
  ⟨htu.cmd.trans hst.cmd, htu.cancel.trans hst.cancel, htu.taken.trans hst.taken,
    htu.paired.trans hst.paired, hst.loans.trans htu.loans⟩

theorem keeps_of_eq {s t : Manager} (hcmd : t.cmd = s.cmd)
    (hcancel : t.cancelCommand = s.cancelCommand) (htaken : t.pairsTaken = s.pairsTaken)
    (hpaired : t.paired = s.paired) (hscan : t.scanRecv = s.scanRecv) (hsync : t.perAdvSync = s.perAdvSync)
    (hconn : t.connected = s.connected) (hauth : t.auth = s.auth) : Keeps s t :=
  ⟨hcmd, hcancel, htaken, hpaired, Or.inl hscan, Or.inl hsync, Or.inl hconn, Or.inl hauth⟩

structure ScanResult (cancel : Bool) (s : Manager) (r : Option (Except Int ScanInfo))
    (info : Option ScanInfo) : Prop where
  taken : TakenFrom s.scanRecv info
  canceled : cancel = true → r ≠ none
  found : cancel = false → ∀ ret, r ≠ some (.error ret)
  pending : cancel = false → s.scanRecv = none → r = none

theorem scanLoop_spec (accepts : ScanInfo → Bool) (cancel : Bool) {s : Manager}
    (hscan : s.scanning = true) :
    ∃ r info, scanLoop accepts cancel s = (r, { s with scanRecv := info, scanning := r.isNone }) ∧
      ScanResult cancel s r info := by
  rcases cancel with _ | _
  · rcases hinfo : s.scanRecv with _ | info
    · have hsame : { s with scanRecv := none, scanning := true } = s := by
        rw [← hscan, ← hinfo]
      refine ⟨none, none, ?_, Or.inr rfl, by simp, by simp, by simp⟩
      simp only [scanLoop, hinfo, Bool.false_eq_true, if_false, Option.isNone_none, hsame]
    · rcases hacc : accepts info with _ | _
      · refine ⟨none, none, ?_, Or.inr rfl, by simp, by simp, by simp⟩
        simp [scanLoop, hinfo, hacc, hscan]
      · refine ⟨some (.ok info), none, ?_, Or.inr rfl, by simp, by simp, by simp [hinfo]⟩
        simp [scanLoop, hinfo, hacc, btLeScanStop]
  · refine ⟨some (.error (-ecanceled)), s.scanRecv, ?_, Or.inl rfl, by simp, by simp, by simp⟩
    simp [scanLoop, btLeScanStop]

theorem scan_spec (accepts : ScanInfo → Bool) (cancel : Bool) {suspended : Bool} {s : Manager}
    (hscan : s.scanning = suspended) :
    ∃ r info, scan accepts suspended cancel s =
        (r, { s with scanRecv := info, scanning := r.isNone }) ∧ ScanResult cancel s r info := by
  rcases suspended with _ | _
  · obtain ⟨r, info, hr, hresult⟩ := scanLoop_spec accepts cancel
      (show ({ s with scanning := true } : Manager).scanning = true from rfl)
    refine ⟨r, info, ?_, hresult.taken, hresult.canceled, hresult.found, hresult.pending⟩
    simpa [scan, btLeScanStart, hscan] using hr
  · simpa [scan] using scanLoop_spec accepts cancel hscan

theorem scan_busy (accepts : ScanInfo → Bool) (cancel : Bool) {s : Manager}
    (hscan : s.scanning = true) :
    scan accepts false cancel s = (some (.error (-ealready)), { s with scanning := false }) := by
  simp [scan, btLeScanStart, hscan, btLeScanStop, ealready]

/-- The result of `mgr_pair` or `mgr_sync`, with what it means for the resume
points. -/
structure Resumes (suspended : Manager → Prop) (s : Manager) (r : Option Int) (t : Manager) :
    Prop where
  keeps : Keeps s t
  pending : r = none → suspended t
  ready : r ≠ none → Finished t

theorem mgrLoanGetConn_taken {α : Type} (connOf : α → Conn) (ptr : Option α) (conn : Option Conn)
    (cancel : Bool) : TakenFrom ptr (mgrLoanGetConn connOf ptr conn cancel).2 := by
  simp only [mgrLoanGetConn]
  split
  · exact Or.inl rfl
  · split
    · exact Or.inr rfl
    · split <;> exact Or.inr rfl

theorem resumes_coYield {suspended : Manager → Prop} {s t : Manager} {label : CalleeLabel}
    (hkeeps : Keeps s t) (hsuspended : suspended { t with calleeState := some label }) :
    Resumes suspended s (coYield label t).1 (coYield label t).2 where
  keeps := hkeeps.trans (keeps_of_eq rfl rfl rfl rfl rfl rfl rfl rfl)
  pending := fun _ => hsuspended
  ready := fun h => absurd rfl h

theorem resumes_coReturn {suspended : Manager → Prop} {s t : Manager} {ret : Int}
    (hkeeps : Keeps s t) (hscan : t.scanning = false) :
    Resumes suspended s (coReturn ret t).1 (coReturn ret t).2 where
  keeps := hkeeps.trans (keeps_of_eq rfl rfl rfl rfl rfl rfl rfl rfl)
  pending := fun h => absurd h (Option.some_ne_none ret)
  ready := fun _ => ⟨rfl, hscan⟩

theorem mgrPairAuth_spec (cancel : Bool) {s : Manager} (hscan : s.scanning = false) :
    Resumes PairSuspended s (mgrPairAuth cancel s).1 (mgrPairAuth cancel s).2 := by
  have htaken := mgrLoanGetConn_taken AuthEvent.conn s.auth s.conn cancel
  simp only [mgrPairAuth]
  generalize mgrLoanGetConn AuthEvent.conn s.auth s.conn cancel = got at htaken
  rcases got with ⟨event, auth⟩
  have hkeeps : ∀ callee, Keeps s { s with auth := auth, pairCallee := callee } :=
    fun _ => ⟨rfl, rfl, rfl, rfl, Or.inl rfl, Or.inl rfl, Or.inl rfl, htaken⟩
  rcases event with _ | _ | ⟨conn, _ | _ | _⟩
  · exact resumes_coYield (hkeeps _) (Or.inr ⟨Or.inr rfl, hscan⟩)
  · exact resumes_coReturn (hkeeps _) hscan
  · exact resumes_coReturn (hkeeps _) hscan
  · exact resumes_coYield (hkeeps _) (Or.inr ⟨Or.inr rfl, hscan⟩)
  · exact resumes_coReturn (hkeeps _) hscan

theorem Resumes.after {suspended : Manager → Prop} {s t u : Manager} {r : Option Int}
    (hkeeps : Keeps s t) (h : Resumes suspended t r u) : Resumes suspended s r u :=
  ⟨hkeeps.trans h.keeps, h.pending, h.ready⟩

theorem mgrPairConnection_spec (cancel : Bool) {s : Manager} (hscan : s.scanning = false) :
    Resumes PairSuspended s (mgrPairConnection cancel s).1 (mgrPairConnection cancel s).2 := by
  have htaken := mgrLoanGetConn_taken ConnectionEvent.conn s.connected s.conn cancel
  simp only [mgrPairConnection]
  generalize mgrLoanGetConn ConnectionEvent.conn s.connected s.conn cancel = got at htaken
  rcases got with ⟨event, connected⟩
  have hkeeps : ∀ callee, Keeps s { s with connected := connected, pairCallee := callee } :=
    fun _ => ⟨rfl, rfl, rfl, rfl, Or.inl rfl, Or.inl rfl, htaken, Or.inl rfl⟩
  rcases event with _ | _ | event
  · exact resumes_coYield (hkeeps _) (Or.inr ⟨Or.inl rfl, hscan⟩)
  · exact resumes_coReturn (hkeeps _) hscan
  · dsimp only
    split
    · exact resumes_coReturn (hkeeps _) hscan
    · exact Resumes.after (hkeeps _) (mgrPairAuth_spec cancel (by exact hscan))

theorem mgrPairScan_spec (cancel : Bool) {s : Manager}
    (hscan : s.scanning = (s.pairCallee == some .scan)) :
    Resumes PairSuspended s (mgrPairScan cancel s).1 (mgrPairScan cancel s).2 := by
  obtain ⟨r, info, hr, htaken, -, -, -⟩ :=
    scan_spec (fun info => acceptsCentral btDataParse info.connectable info.data) cancel hscan
  have hkeeps : ∀ conn callee next scanning, Keeps s { s with
      scanRecv := info, conn := conn, pairCallee := callee, nextConn := next
      scanning := scanning } :=
    fun _ _ _ _ => ⟨rfl, rfl, rfl, rfl, htaken, Or.inl rfl, Or.inl rfl, Or.inl rfl⟩
  simp only [mgrPairScan, mgrScanForCentral, hr]
  rcases r with _ | ret | found
  · exact resumes_coYield (hkeeps _ _ _ _) (Or.inl ⟨rfl, rfl, rfl⟩)
  · exact resumes_coReturn (hkeeps _ _ _ _) rfl
  · exact Resumes.after (hkeeps _ _ _ _) (mgrPairConnection_spec cancel (by rfl))

/-- `mgr_pair` can be called in this state. -/
def PairReady (s : Manager) : Prop :=
  Finished s ∨ PairSuspended s

theorem mgrPair_spec (cancel : Bool) {s : Manager} (h : PairReady s) :
    ∃ r t, mgrPair cancel s = some (r, t) ∧ Resumes PairSuspended s r t := by
  rcases h with ⟨hstate, hscan⟩ | ⟨hstate, hcallee, hscan⟩ | ⟨hstate | hstate, hscan⟩
  · refine ⟨_, _, by simp only [mgrPair, hstate]; rfl, ?_⟩
    refine Resumes.after ?_ (mgrPairScan_spec cancel ?_)
    · exact keeps_of_eq rfl rfl rfl rfl rfl rfl rfl rfl
    · exact hscan
  · refine ⟨_, _, by simp only [mgrPair, hstate]; rfl, ?_⟩
    exact mgrPairScan_spec cancel (by rw [hcallee, hscan]; rfl)
  · exact ⟨_, _, by simp only [mgrPair, hstate], mgrPairConnection_spec cancel hscan⟩
  · exact ⟨_, _, by simp only [mgrPair, hstate], mgrPairAuth_spec cancel hscan⟩

section

variable (term : Manager → Option Manager)

theorem btLePerAdvSyncDelete_of_ne {s : Manager} (hsync : s.hostSync ≠ .established) :
    btLePerAdvSyncDelete term s = some { s with hostSync := .none } := by
  rcases hhost : s.hostSync with _ | _ | _
  · have hsame : { s with hostSync := .none } = s := by rw [← hhost]
    simp only [btLePerAdvSyncDelete, hhost, hsame]
  · simp only [btLePerAdvSyncDelete, hhost]
  · exact absurd hhost hsync

theorem mgrSyncExit_spec (ret : Int) {s : Manager} (hscan : s.scanning = false)
    (hsync : s.hostSync ≠ .established) :
    ∃ t, mgrSyncExit term ret s = some (some ret, t) ∧ Resumes SyncSuspended s (some ret) t := by
  simp only [mgrSyncExit, btLePerAdvSyncDelete_of_ne term hsync, Option.map_some]
  split
  · refine ⟨_, rfl, resumes_coReturn ?_ ?_⟩
    · exact keeps_of_eq rfl rfl rfl rfl rfl rfl rfl rfl
    · exact hscan
  · refine ⟨_, rfl, resumes_coReturn ?_ hscan⟩
    exact keeps_of_eq rfl rfl rfl rfl rfl rfl rfl rfl

/-- The sync is not deleted while it is established. -/
def NoCallback (cancel : Bool) (s : Manager) : Prop :=
  s.hostSync ≠ .established ∨ (cancel = false ∧ s.perAdvSync ≠ some .term)

theorem mgrSyncEvent_spec (cancel : Bool) {s : Manager} (hscan : s.scanning = false)
    (hptr : s.sync = true) (hcall : NoCallback cancel s) :
    ∃ r t, mgrSyncEvent term cancel s = some (r, t) ∧ Resumes SyncSuspended s r t := by
  have hkeeps : ∀ led adv calls, Keeps s { s with
      perAdvSync := none, ledSync := led, adv := adv, calls := calls } :=
    fun _ _ _ => ⟨rfl, rfl, rfl, rfl, Or.inl rfl, Or.inr rfl, Or.inl rfl, Or.inl rfl⟩
  rcases cancel with _ | _
  · rcases hevent : s.perAdvSync with _ | _ | _ | ⟨time, data⟩
    · refine ⟨_, _, by simp only [mgrSyncEvent, hevent]; rfl, ?_⟩
      exact resumes_coYield (keeps_of_eq rfl rfl rfl rfl rfl rfl rfl rfl) (Or.inr ⟨rfl, hptr, hscan⟩)
    · refine ⟨_, _, by simp only [mgrSyncEvent, hevent]; rfl, ?_⟩
      exact resumes_coYield (hkeeps _ _ _) (Or.inr ⟨rfl, hptr, hscan⟩)
    · have hhost := hcall.resolve_right fun h => h.2 hevent
      obtain ⟨t, ht, hresumes⟩ := mgrSyncExit_spec term (-ecanceled)
        (s := { s with perAdvSync := none, ledSync := false }) hscan hhost
      refine ⟨_, t, by simp only [mgrSyncEvent, hevent]; exact ht, ?_⟩
      exact Resumes.after (hkeeps _ _ _) hresumes
    · obtain ⟨adv, calls, hdata⟩ := recvData_eq time data { s with perAdvSync := none }
      refine ⟨_, _, by simp only [mgrSyncEvent, hevent, hdata]; rfl, ?_⟩
      exact resumes_coYield (hkeeps _ _ _) (Or.inr ⟨rfl, hptr, hscan⟩)
  · have hhost := hcall.resolve_right fun h => absurd h.1 (by decide)
    obtain ⟨t, ht, hresumes⟩ := mgrSyncExit_spec term (-ecanceled) hscan hhost
    exact ⟨_, t, by simp only [mgrSyncEvent]; exact ht, hresumes⟩

theorem mgrSyncScan_spec (cancel : Bool) {s : Manager} (hscan : s.scanning = s.syncScan) :
    ∃ r t, mgrSyncScan term cancel s = some (r, t) ∧ Resumes SyncSuspended s r t ∧
      (cancel = false → s.scanRecv = none ∨ s.perAdvSync = none → r = none) := by
  obtain ⟨r, info, hr, htaken, -, hfound, hpending⟩ :=
    scan_spec (fun info => info.interval != 0 && info.addr == s.addr) cancel hscan
  have hkeeps : ∀ scanning syncScan sid sync host, Keeps s { s with
      scanRecv := info, scanning := scanning, syncScan := syncScan, sid := sid, sync := sync
      hostSync := host } :=
    fun _ _ _ _ _ => ⟨rfl, rfl, rfl, rfl, htaken, Or.inl rfl, Or.inl rfl, Or.inl rfl⟩
  simp only [mgrSyncScan, mgrScanForSync, hr]
  rcases r with _ | ret | found
  · refine ⟨_, _, rfl, ?_, fun _ _ => rfl⟩
    exact resumes_coYield (hkeeps _ _ _ _ _) (Or.inl ⟨rfl, rfl, rfl⟩)
  · refine ⟨_, _, rfl, resumes_coReturn (hkeeps _ _ _ _ _) rfl, ?_⟩
    intro hcancel _
    exact absurd rfl (hfound hcancel ret)
  · obtain ⟨r, t, ht, hresumes⟩ := mgrSyncEvent_spec term cancel (s := { s with
        scanRecv := info, scanning := false, syncScan := false, sid := found.sid, sync := true
        hostSync := .pending }) rfl rfl (Or.inl PerAdvSync.noConfusion)
    refine ⟨r, t, ht, Resumes.after (hkeeps _ _ _ _ _) hresumes, ?_⟩
    rintro rfl hloan
    have hsync : s.perAdvSync = none := by
      rcases hloan with h | h
      · exact absurd (hpending rfl h) (by simp)
      · exact h
    simp only [mgrSyncEvent, Bool.false_eq_true, if_false, hsync, coYield, Option.some.injEq,
      Prod.mk.injEq] at ht
    exact ht.1.symm

theorem mgrSync_of_finished (cancel : Bool) {s : Manager} (hstate : s.calleeState = none) :
    mgrSync term cancel s =
      mgrSyncScan term cancel { s with sync := false, sid := 0, syncScan := false } := by
  cases s
  simp only at hstate
  subst hstate
  rfl

/-- `mgr_sync` can be called in this state. -/
def SyncReady (s : Manager) : Prop :=
  Finished s ∨ SyncSuspended s

theorem mgrSync_spec (cancel : Bool) {s : Manager} (h : SyncReady s)
    (hcall : s.calleeState = some .syncEvent → NoCallback cancel s) :
    ∃ r t, mgrSync term cancel s = some (r, t) ∧ Resumes SyncSuspended s r t := by
  rcases h with ⟨hstate, hscan⟩ | ⟨hstate, hsuspended, hscan⟩ | ⟨hstate, hptr, hscan⟩
  · obtain ⟨r, t, ht, hresumes, -⟩ := mgrSyncScan_spec term cancel
      (s := { s with sync := false, sid := 0, syncScan := false }) hscan
    refine ⟨r, t, (mgrSync_of_finished term cancel hstate).trans ht, ?_⟩
    refine Resumes.after ?_ hresumes
    exact keeps_of_eq rfl rfl rfl rfl rfl rfl rfl rfl
  · obtain ⟨r, t, ht, hresumes, -⟩ := mgrSyncScan_spec term cancel (hscan.trans hsuspended.symm)
    exact ⟨r, t, by simp only [mgrSync, hstate]; exact ht, hresumes⟩
  · obtain ⟨r, t, ht, hresumes⟩ := mgrSyncEvent_spec term cancel hscan hptr (hcall hstate)
    exact ⟨r, t, by simp only [mgrSync, hstate]; exact ht, hresumes⟩

theorem mgrSync_begins {s : Manager} (h : Finished s)
    (hloan : s.scanRecv = none ∨ s.perAdvSync = none) :
    ∃ t, mgrSync term false s = some (none, t) ∧ Resumes SyncSuspended s none t := by
  obtain ⟨hstate, hscan⟩ := h
  obtain ⟨r, t, ht, hresumes, hpending⟩ := mgrSyncScan_spec term false
    (s := { s with sync := false, sid := 0, syncScan := false }) hscan
  obtain rfl := hpending rfl hloan
  refine ⟨t, (mgrSync_of_finished term false hstate).trans ht, ?_⟩
  refine Resumes.after ?_ hresumes
  exact keeps_of_eq rfl rfl rfl rfl rfl rfl rfl rfl

theorem mgrSync_busy (cancel : Bool) {s : Manager} (hstate : s.calleeState = none)
    (hscan : s.scanning = true) :
    ∃ ret t, mgrSync term cancel s = some (some ret, t) ∧ Keeps s t ∧ Finished t := by
  have hbusy := scan_busy (fun info => info.interval != 0 && info.addr == s.addr) cancel
    (s := { s with sync := false, sid := 0, syncScan := false }) hscan
  refine ⟨-ealready, { s with
      calleeState := none, sync := false, sid := 0, syncScan := false, scanning := false }, ?_, ?_,
    rfl, rfl⟩
  · rw [mgrSync_of_finished term cancel hstate]
    simp only [mgrSyncScan, mgrScanForSync, hbusy]
    rfl
  · exact keeps_of_eq rfl rfl rfl rfl rfl rfl rfl rfl

end

theorem mgrPair_canceled {s : Manager} (h : PairSuspended s) :
    ∃ ret t, mgrPair true s = some (some ret, t) ∧ t.pairsBegun = s.pairsBegun := by
  rcases h with ⟨hstate, hcallee, hscan⟩ | ⟨hstate | hstate, hscan⟩
  · simp [mgrPair, hstate, mgrPairScan, mgrScanForCentral, hcallee, scan, scanLoop, coReturn,
      btLeScanStop]
  · simp [mgrPair, hstate, mgrPairConnection, mgrLoanGetConn, coReturn]
  · simp [mgrPair, hstate, mgrPairAuth, mgrLoanGetConn, coReturn]

theorem mgrSync_canceled (term : Manager → Option Manager) {s : Manager} (h : SyncSuspended s)
    (hsync : s.calleeState = some .syncEvent → s.hostSync ≠ .established) :
    ∃ ret t, mgrSync term true s = some (some ret, t) ∧ t.pairsBegun = s.pairsBegun := by
  rcases h with ⟨hstate, hsuspended, hscan⟩ | ⟨hstate, hptr, hscan⟩
  · simp [mgrSync, hstate, mgrSyncScan, mgrScanForSync, hsuspended, scan, scanLoop, coReturn,
      btLeScanStop]
  · simp [mgrSync, hstate, mgrSyncEvent, mgrSyncExit, hptr,
      btLePerAdvSyncDelete_of_ne term (hsync hstate), coReturn]

/-- An activation left consistent resume points. -/
structure Ran (s t : Manager) : Prop where
  resume : Resumable t
  cmd : t.cmd = .none
  cancel : t.cancelCommand = false
  paired : t.paired = s.paired
  loans : LoansLe s t

/-- `mgr_per_adv_sync_term` as a nested activation. -/
def nestedTerm (n : Nat) : Manager → Option Manager :=
  mgrPerAdvSyncTerm fun s => runFrom n (resumePoint s.runState) s

theorem runFrom_loop_idle (n : Nat) {s : Manager} (hcmd : s.cmd = .none)
    (hpaired : s.paired = none) :
    runFrom (n + 1) .loop s = some { s with cancelCommand := false, runState := some .idle } := by
  cases s
  simp only at hcmd hpaired
  subst hcmd hpaired
  rfl

theorem runFrom_loop_sync (n : Nat) {s : Manager} {addr : Addr} (hcmd : s.cmd = .none)
    (hpaired : s.paired = some addr) :
    runFrom (n + 1) .loop s = runFrom n .sync { s with cancelCommand := false, addr := addr } := by
  cases s
  simp only at hcmd hpaired
  subst hcmd hpaired
  rfl

theorem runFrom_loop_pair (n : Nat) {s : Manager} (hcmd : s.cmd = .pair) :
    runFrom (n + 1) .loop s = runFrom n .pair { s with
      cancelCommand := false, cmd := .none, pairsTaken := s.pairsTaken + 1 } := by
  cases s
  simp only at hcmd
  subst hcmd
  rfl

theorem runFrom_sync_pending {n : Nat} {s t : Manager}
    (h : mgrSync (nestedTerm n) s.cancelCommand s = some (none, t)) :
    runFrom (n + 1) .sync s = some { t with runState := some .sync } := by
  simp only [nestedTerm] at h
  simp only [runFrom, h]

theorem runFrom_sync_ready {n : Nat} {s t : Manager} (ret : Int)
    (h : mgrSync (nestedTerm n) s.cancelCommand s = some (some ret, t)) :
    runFrom (n + 1) .sync s = runFrom n .loop t := by
  simp only [nestedTerm] at h
  simp only [runFrom, h]

theorem runFrom_pair_pending {n : Nat} {s t : Manager}
    (h : mgrPair s.cancelCommand s = some (none, t)) :
    runFrom (n + 1) .pair s = some { t with runState := some .pair } := by
  simp only [runFrom, h]

theorem runFrom_pair_ready {n : Nat} {s t : Manager} {ret : Int}
    (h : mgrPair s.cancelCommand s = some (some ret, t)) :
    runFrom (n + 1) .pair s = runFrom n .loop t := by
  simp only [runFrom, h]

theorem runFrom_loop (n : Nat) {s : Manager} (h : Finished s) (hcmd : s.cmd = .none)
    (hloan : s.scanRecv = none ∨ s.perAdvSync = none) :
    ∃ t, runFrom (n + 2) .loop s = some t ∧ Ran s t ∧ t.runState ≠ some .pair ∧
      (t.scanning = true → s.paired ≠ none) := by
  rcases hpaired : s.paired with _ | addr
  · refine ⟨_, runFrom_loop_idle (n + 1) hcmd hpaired, ⟨Or.inl ⟨rfl, h⟩, hcmd, rfl, rfl, ?_⟩,
      by simp, ?_⟩
    · exact ⟨Or.inl rfl, Or.inl rfl, Or.inl rfl, Or.inl rfl⟩
    · intro hscan
      exact absurd (h.2.symm.trans hscan) (by decide)
  · obtain ⟨t, ht, hresumes⟩ := mgrSync_begins (nestedTerm n)
      (s := { s with cancelCommand := false, addr := addr }) h hloan
    refine ⟨{ t with runState := some .sync }, ?_, ⟨?_, ?_, ?_, ?_, ?_⟩, by simp, ?_⟩
    · exact (runFrom_loop_sync (n + 1) hcmd hpaired).trans (runFrom_sync_pending ht)
    · exact Or.inr (Or.inl ⟨rfl, hresumes.pending rfl⟩)
    · exact hresumes.keeps.cmd.trans hcmd
    · exact hresumes.keeps.cancel
    · exact hresumes.keeps.paired
    · obtain ⟨h1, h2, h3, h4⟩ := hresumes.keeps.loans
      exact ⟨h1, h2, h3, h4⟩
    · intro _
      exact Option.some_ne_none addr

theorem Ran.after {s t u : Manager} (hpaired : t.paired = s.paired) (hloans : LoansLe s t)
    (h : Ran t u) : Ran s u :=
  ⟨h.resume, h.cmd, h.cancel, h.paired.trans hpaired, hloans.trans h.loans⟩

theorem LoansLe.no_scan_or_sync {s t : Manager} (h : LoansLe s t)
    (hs : s.scanRecv = none ∨ s.perAdvSync = none) : t.scanRecv = none ∨ t.perAdvSync = none := by
  rcases hs with hnone | hnone
  · exact Or.inl (TakenFrom.of_none (hnone ▸ h.scanRecv))
  · exact Or.inr (TakenFrom.of_none (hnone ▸ h.perAdvSync))

theorem runFrom_loop_busy (n : Nat) {s : Manager} (hstate : s.calleeState = none)
    (hscan : s.scanning = true) (hcmd : s.cmd = .none)
    (hloan : s.scanRecv = none ∨ s.perAdvSync = none) :
    ∃ t, runFrom (n + 4) .loop s = some t ∧ t.runState ≠ some .pair ∧
      (s.paired ≠ none → Ran s t) := by
  rcases hpaired : s.paired with _ | addr
  · refine ⟨_, runFrom_loop_idle (n + 3) hcmd hpaired, by simp, ?_⟩
    intro hsome
    exact absurd rfl hsome
  · obtain ⟨ret, u, hu, hkeeps, hfinished⟩ := mgrSync_busy (nestedTerm (n + 2)) false
      (s := { s with cancelCommand := false, addr := addr }) hstate hscan
    have hset : LoansLe s { s with cancelCommand := false, addr := addr } :=
      ⟨Or.inl rfl, Or.inl rfl, Or.inl rfl, Or.inl rfl⟩
    have hloans := hset.trans hkeeps.loans
    obtain ⟨t, ht, hran, hrun, -⟩ :=
      runFrom_loop n hfinished (hkeeps.cmd.trans hcmd) (hloans.no_scan_or_sync hloan)
    refine ⟨t, ?_, hrun, fun _ => Ran.after hkeeps.paired hloans hran⟩
    rw [runFrom_loop_sync (n + 3) hcmd hpaired, runFrom_sync_ready _ hu, ht]

theorem runFrom_resume (n : Nat) {s : Manager} (h : Resumable s) (hcmd : s.cmd = .none)
    (hcancel : s.cancelCommand = false) (hloan : s.scanRecv = none ∨ s.perAdvSync = none)
    (hcall : s.runState = some .sync → s.calleeState = some .syncEvent → NoCallback false s) :
    ∃ t, runFrom (n + 3) (resumePoint s.runState) s = some t ∧ Ran s t := by
  rcases h with ⟨hrun, hfinished⟩ | ⟨hrun, hsuspended⟩ | ⟨hrun, hsuspended⟩
  · obtain ⟨t, ht, hran, -⟩ := runFrom_loop (n + 1) hfinished hcmd hloan
    rw [hrun]
    exact ⟨t, ht, hran⟩
  · obtain ⟨r, u, hu, hresumes⟩ := mgrSync_spec (nestedTerm (n + 2)) s.cancelCommand
      (Or.inr hsuspended) (hcancel ▸ hcall hrun)
    have hkeeps := hresumes.keeps
    rw [hrun]
    rcases r with _ | ret
    · refine ⟨_, runFrom_sync_pending hu, ⟨?_, ?_, ?_, ?_, ?_⟩⟩
      · exact Or.inr (Or.inl ⟨rfl, hresumes.pending rfl⟩)
      · exact hkeeps.cmd.trans hcmd
      · exact hkeeps.cancel.trans hcancel
      · exact hkeeps.paired
      · exact ⟨hkeeps.loans.scanRecv, hkeeps.loans.perAdvSync, hkeeps.loans.connected,
          hkeeps.loans.auth⟩
    · obtain ⟨t, ht, hran, -⟩ := runFrom_loop n (hresumes.ready (Option.some_ne_none ret))
        (hkeeps.cmd.trans hcmd) (hkeeps.loans.no_scan_or_sync hloan)
      exact ⟨t, (runFrom_sync_ready _ hu).trans ht, Ran.after hkeeps.paired hkeeps.loans hran⟩
  · obtain ⟨r, u, hu, hresumes⟩ := mgrPair_spec s.cancelCommand (Or.inr hsuspended)
    have hkeeps := hresumes.keeps
    rw [hrun]
    rcases r with _ | ret
    · refine ⟨_, runFrom_pair_pending hu, ⟨?_, ?_, ?_, ?_, ?_⟩⟩
      · exact Or.inr (Or.inr ⟨rfl, hresumes.pending rfl⟩)
      · exact hkeeps.cmd.trans hcmd
      · exact hkeeps.cancel.trans hcancel
      · exact hkeeps.paired
      · exact ⟨hkeeps.loans.scanRecv, hkeeps.loans.perAdvSync, hkeeps.loans.connected,
          hkeeps.loans.auth⟩
    · obtain ⟨t, ht, hran, -⟩ := runFrom_loop n (hresumes.ready (Option.some_ne_none ret))
        (hkeeps.cmd.trans hcmd) (hkeeps.loans.no_scan_or_sync hloan)
      exact ⟨t, (runFrom_pair_ready hu).trans ht, Ran.after hkeeps.paired hkeeps.loans hran⟩

/-- `mgr_sync` waits for an event of its sync. -/
structure InSync (s : Manager) : Prop where
  run : s.runState = some .sync
  state : s.calleeState = some .syncEvent
  sync : s.sync = true
  scanning : s.scanning = false

theorem mgrSync_term (term : Manager → Option Manager) {s : Manager} (h : InSync s)
    (hevent : s.perAdvSync = some .term) :
    mgrSync term false s =
      mgrSyncExit term (-ecanceled) { s with perAdvSync := none, ledSync := false } := by
  have hstate := h.state
  cases s
  simp only at hstate hevent
  subst hstate hevent
  rfl

theorem mgrSync_cancel (term : Manager → Option Manager) {s : Manager} (h : InSync s) :
    mgrSync term true s = mgrSyncExit term (-ecanceled) s := by
  have hstate := h.state
  cases s
  simp only at hstate
  subst hstate
  rfl

theorem runFrom_term (n : Nat) {s : Manager} (h : InSync s) (hevent : s.perAdvSync = some .term)
    (hsync : s.hostSync ≠ .established) (hcmd : s.cmd = .none) (hcancel : s.cancelCommand = false) :
    ∃ t, runFrom (n + 3) .sync s = some t ∧ Ran s t ∧ t.runState ≠ some .pair ∧
      (t.scanning = true → s.paired ≠ none) := by
  obtain ⟨u, hu, hresumes⟩ := mgrSyncExit_spec (nestedTerm (n + 2)) (-ecanceled)
    (s := { s with perAdvSync := none, ledSync := false }) h.scanning hsync
  have hkeeps := hresumes.keeps
  have hmgr : mgrSync (nestedTerm (n + 2)) s.cancelCommand s = some (some (-ecanceled), u) := by
    rw [hcancel, mgrSync_term _ h hevent, hu]
  obtain ⟨t, ht, hran, hrun, hscan⟩ := runFrom_loop n (hresumes.ready (Option.some_ne_none _))
    (hkeeps.cmd.trans hcmd) (Or.inr (TakenFrom.of_none hkeeps.loans.perAdvSync))
  refine ⟨t, (runFrom_sync_ready _ hmgr).trans ht, Ran.after hkeeps.paired ?_ hran, hrun, ?_⟩
  · have htaken : LoansLe s { s with perAdvSync := none, ledSync := false } :=
      ⟨Or.inl rfl, Or.inr rfl, Or.inl rfl, Or.inl rfl⟩
    exact htaken.trans hkeeps.loans
  · rw [hkeeps.paired] at hscan
    exact hscan

theorem mgrSyncExit_established {n : Nat} {s : Manager} (h : InSync s)
    (hsync : s.hostSync = .established) (ret : Int) :
    mgrSyncExit (nestedTerm n) ret s =
      (runFrom n .sync { s with hostSync := .none, perAdvSync := some .term }).map
        fun t => coReturn ret { t with perAdvSync := none } := by
  simp only [mgrSyncExit, h.sync, if_true, btLePerAdvSyncDelete, hsync, nestedTerm,
    mgrPerAdvSyncTerm, h.run, resumePoint, Option.map_map]
  rfl

theorem runFrom_loop_taken (n : Nat) {s : Manager} (h : Finished s) (hcmd : s.cmd = .pair)
    (hloan : s.scanRecv = none) :
    ∃ t, runFrom (n + 2) .loop s = some t ∧ Pairing s t ∧ Ran s t := by
  obtain ⟨hstate, hscan⟩ := h
  have hpair : mgrPair false { s with
        cancelCommand := false, cmd := .none, pairsTaken := s.pairsTaken + 1 } =
      some (none, { s with
        cancelCommand := false, cmd := .none, pairsTaken := s.pairsTaken + 1, conn := none
        pairCallee := some .scan, pairsBegun := s.pairsBegun + 1, scanning := true
        calleeState := some .pairScan }) := by
    simp [mgrPair, hstate, mgrPairScan, mgrScanForCentral, scan, btLeScanStart, hscan, scanLoop,
      hloan, coYield]
  refine ⟨_, (runFrom_loop_pair (n + 1) hcmd).trans (runFrom_pair_pending hpair), ?_, ?_⟩
  · exact ⟨rfl, ⟨rfl, rfl, rfl⟩, rfl, rfl, rfl, rfl, rfl⟩
  · refine ⟨Or.inr (Or.inr ⟨rfl, Or.inl ⟨rfl, rfl, rfl⟩⟩), rfl, rfl, rfl, ?_⟩
    exact ⟨Or.inl rfl, Or.inl rfl, Or.inl rfl, Or.inl rfl⟩

/-- The request cancels the coroutine in which `mgr_run` is suspended. -/
structure Requested (s : Manager) : Prop where
  cmd : s.cmd = .pair
  cancel : s.cancelCommand = true
  scanRecv : s.scanRecv = none

theorem runFrom_loop_keeps (n : Nat) {s u : Manager} (hs : Requested s) (hkeeps : Keeps s u)
    (hbegun : u.pairsBegun = s.pairsBegun) (h : Finished u) :
    ∃ t, runFrom (n + 2) .loop u = some t ∧ Pairing s t ∧ Ran s t := by
  have hscan : u.scanRecv = none := TakenFrom.of_none (hs.scanRecv ▸ hkeeps.loans.scanRecv)
  obtain ⟨t, ht, hpairing, hran⟩ := runFrom_loop_taken n h (hkeeps.cmd.trans hs.cmd) hscan
  refine ⟨t, ht, ?_, Ran.after hkeeps.paired hkeeps.loans hran⟩
  exact ⟨hpairing.run, hpairing.pair, hpairing.fresh, hbegun ▸ hpairing.begun,
    hkeeps.taken ▸ hpairing.taken, hpairing.cmd, hpairing.cancel⟩

/-- `mgr_sync` follows a sync that is established. -/
def SyncEstablished (s : Manager) : Prop :=
  s.runState = some .sync ∧ s.calleeState = some .syncEvent ∧ s.hostSync = .established

instance (s : Manager) : Decidable (SyncEstablished s) :=
  inferInstanceAs (Decidable (_ ∧ _ ∧ _))

theorem runFrom_requested (n : Nat) {s : Manager} (h : Resumable s) (hs : Requested s)
    (hsync : ¬ SyncEstablished s) :
    ∃ t, runFrom (n + 3) (resumePoint s.runState) s = some t ∧ Pairing s t ∧ Ran s t := by
  rcases h with ⟨hrun, hfinished⟩ | ⟨hrun, hsuspended⟩ | ⟨hrun, hsuspended⟩
  · rw [hrun]
    exact runFrom_loop_taken (n + 1) hfinished hs.cmd hs.scanRecv
  · have hhost : s.calleeState = some .syncEvent → s.hostSync ≠ .established :=
      fun hstate hhost => hsync ⟨hrun, hstate, hhost⟩
    obtain ⟨ret, u, hu, hbegun⟩ := mgrSync_canceled (nestedTerm (n + 2)) hsuspended hhost
    obtain ⟨r, v, hv, hresumes⟩ := mgrSync_spec (nestedTerm (n + 2)) true (Or.inr hsuspended)
      fun hstate => Or.inl (hhost hstate)
    obtain ⟨rfl, rfl⟩ : some ret = r ∧ u = v := by simpa [hu] using hv
    obtain ⟨t, ht, hpairing⟩ := runFrom_loop_keeps n hs hresumes.keeps hbegun
      (hresumes.ready (Option.some_ne_none ret))
    rw [hrun]
    exact ⟨t, (runFrom_sync_ready _ (hs.cancel ▸ hu)).trans ht, hpairing⟩
  · obtain ⟨ret, u, hu, hbegun⟩ := mgrPair_canceled hsuspended
    obtain ⟨r, v, hv, hresumes⟩ := mgrPair_spec true (Or.inr hsuspended)
    obtain ⟨rfl, rfl⟩ : some ret = r ∧ u = v := by simpa [hu] using hv
    obtain ⟨t, ht, hpairing⟩ := runFrom_loop_keeps n hs hresumes.keeps hbegun
      (hresumes.ready (Option.some_ne_none ret))
    rw [hrun]
    exact ⟨t, (runFrom_pair_ready (hs.cancel ▸ hu)).trans ht, hpairing⟩

theorem SyncEstablished.inSync {s : Manager} (h : SyncEstablished s) (hs : Resumable s) :
    InSync s := by
  obtain ⟨hrun, hstate, -⟩ := h
  rcases hs with ⟨hidle, -⟩ | ⟨-, hscan | hevent⟩ | ⟨hpair, -⟩
  · simp [hrun] at hidle
  · simp [hstate] at hscan
  · exact ⟨hrun, hstate, hevent.2.1, hevent.2.2⟩
  · simp [hrun] at hpair

theorem runFrom_outer (n : Nat) (ret : Int) {s t : Manager} (hran : Ran s t) :
    ∃ u, runFrom (n + 4) .loop (coReturn ret { t with perAdvSync := none }).2 = some u ∧
      u.runState ≠ some .pair ∧ ((t.scanning = true → s.paired ≠ none) → Ran s u) := by
  have hset : LoansLe t (coReturn ret { t with perAdvSync := none }).2 :=
    ⟨Or.inl rfl, Or.inr rfl, Or.inl rfl, Or.inl rfl⟩
  have hloans := hran.loans.trans hset
  rcases (Bool.eq_false_or_eq_true t.scanning).symm with hscan | hscan
  · obtain ⟨u, hu, hrun, hne, -⟩ := runFrom_loop (n + 2)
      (s := (coReturn ret { t with perAdvSync := none }).2) ⟨rfl, hscan⟩ hran.cmd (Or.inr rfl)
    exact ⟨u, hu, hne, fun _ => Ran.after (by exact hran.paired) hloans hrun⟩
  · obtain ⟨u, hu, hne, hrun⟩ := runFrom_loop_busy n
      (s := (coReturn ret { t with perAdvSync := none }).2) rfl hscan hran.cmd (Or.inr rfl)
    refine ⟨u, hu, hne, fun hpaired => ?_⟩
    have hsome : t.paired ≠ none := by
      rw [hran.paired]
      exact hpaired hscan
    exact Ran.after (by exact hran.paired) hloans (hrun hsome)

theorem runFrom_nested (n : Nat) {s : Manager} (h : InSync s) (hsync : s.hostSync = .established)
    (hevent : s.perAdvSync = some .term) (hcmd : s.cmd = .none) (hcancel : s.cancelCommand = false) :
    ∃ t, runFrom (n + 5) .sync s = some t ∧ Ran s t := by
  have hexit := mgrSyncExit_established (n := n + 4)
    (s := { s with perAdvSync := none, ledSync := false })
    ⟨h.run, h.state, h.sync, h.scanning⟩ hsync (-ecanceled)
  obtain ⟨t, ht, hran, -, hscan⟩ := runFrom_term (n + 1) (s := { s with
    perAdvSync := some .term, ledSync := false, hostSync := .none })
    ⟨h.run, h.state, h.sync, h.scanning⟩ rfl PerAdvSync.noConfusion hcmd hcancel
  have hran : Ran s t := by
    refine Ran.after (by rfl) ?_ hran
    exact ⟨Or.inl rfl, Or.inl hevent.symm, Or.inl rfl, Or.inl rfl⟩
  obtain ⟨u, hu, -, hrun⟩ := runFrom_outer n (-ecanceled) hran
  refine ⟨u, ?_, hrun hscan⟩
  rw [← hu]
  apply runFrom_sync_ready (-ecanceled)
  rw [hcancel, mgrSync_term _ h hevent, hexit, ht]
  rfl

/-- The request is lost when it cancels a sync that is established: the nested
`mgr_run` takes the command, and the outer one drops its `mgr_pair`. -/
theorem runFrom_lost (n : Nat) {s : Manager} (h : InSync s) (hsync : s.hostSync = .established)
    (hs : Requested s) :
    ∃ t, runFrom (n + 5) .sync s = some t ∧ t.runState ≠ some .pair := by
  obtain ⟨t, ht, -, hran⟩ := runFrom_requested (n + 1)
    (s := { s with hostSync := .none, perAdvSync := some .term })
    (Or.inr (Or.inl ⟨h.run, Or.inr ⟨h.state, h.sync, h.scanning⟩⟩)) ⟨hs.cmd, hs.cancel, hs.scanRecv⟩
    fun hest => PerAdvSync.noConfusion hest.2.2
  obtain ⟨u, hu, hne, -⟩ := runFrom_outer n (-ecanceled) hran
  refine ⟨u, ?_, hne⟩
  rw [← hu]
  apply runFrom_sync_ready (-ecanceled)
  have hnested : runFrom (n + 4) .sync
      { s with hostSync := .none, perAdvSync := some .term } = some t := by
    have hpoint : resumePoint s.runState = .sync := by rw [h.run, resumePoint]
    rw [← hpoint]
    exact ht
  rw [hs.cancel, mgrSync_cancel _ h, mgrSyncExit_established h hsync, hnested]
  rfl

theorem activate_ran {s : Manager} (h : Resumable s) (hcmd : s.cmd = .none)
    (hcancel : s.cancelCommand = false) (hloan : s.scanRecv = none ∨ s.perAdvSync = none) :
    ∃ t, activate s = some t ∧ Ran s t := by
  rcases Decidable.em (SyncEstablished s ∧ s.perAdvSync = some .term) with ⟨hest, hterm⟩ | hne
  · simp only [activate, hest.1, resumePoint]
    exact runFrom_nested 3 (hest.inSync h) hest.2.2 hterm hcmd hcancel
  · apply runFrom_resume 5 h hcmd hcancel hloan
    intro hrun hstate
    rcases Decidable.em (s.perAdvSync = some .term) with hterm | hterm
    · exact Or.inl fun hsync => hne ⟨⟨hrun, hstate, hsync⟩, hterm⟩
    · exact Or.inr ⟨rfl, hterm⟩

theorem Ran.scanRecv {s t : Manager} (h : Ran s t) (hs : s.scanRecv = none) : t.scanRecv = none :=
  TakenFrom.of_none (hs ▸ h.loans.scanRecv)

theorem Ran.perAdvSync {s t : Manager} (h : Ran s t) (hs : s.perAdvSync = none) :
    t.perAdvSync = none :=
  TakenFrom.of_none (hs ▸ h.loans.perAdvSync)

theorem Ran.connected {s t : Manager} (h : Ran s t) (hs : s.connected = none) :
    t.connected = none :=
  TakenFrom.of_none (hs ▸ h.loans.connected)

theorem Ran.auth {s t : Manager} (h : Ran s t) (hs : s.auth = none) : t.auth = none :=
  TakenFrom.of_none (hs ▸ h.loans.auth)

theorem Ran.consistent {s t : Manager} (h : Ran s t) (hloans : NoLoans s) : Consistent t :=
  ⟨h.resume, h.cmd, h.cancel, h.scanRecv hloans.1, h.perAdvSync hloans.2.1,
    h.connected hloans.2.2.1, h.auth hloans.2.2.2⟩

theorem activate_perAdvSync {s : Manager} (hs : Consistent s) (event : SyncEvent) :
    ∃ t, activate { s with perAdvSync := some event } = some t ∧
      Consistent { t with perAdvSync := none } := by
  obtain ⟨hresume, hcmd, hcancel, hscan, -, hconn, hauth⟩ := hs
  obtain ⟨t, ht, hran⟩ := activate_ran (s := { s with perAdvSync := some event }) hresume hcmd
    hcancel (Or.inl hscan)
  exact ⟨t, ht, hran.resume, hran.cmd, hran.cancel, hran.scanRecv hscan, rfl,
    hran.connected hconn, hran.auth hauth⟩

theorem Consistent.setHostSync {s : Manager} (hs : Consistent s) (sync : PerAdvSync) :
    Consistent { s with hostSync := sync } :=
  ⟨hs.resume, hs.cmd, hs.cancel, hs.loans⟩

theorem mgrStep_consistent {s : Manager} (hs : Consistent s) {i : Input} (hi : i ≠ .pairStart) :
    ∃ t, mgrStep s i = some t ∧ Consistent t := by
  have hsame := hs
  obtain ⟨hresume, hcmd, hcancel, hscan, hsync, hconn, hauth⟩ := hs
  cases i with
  | scanRecv info =>
      obtain ⟨t, ht, hran⟩ := activate_ran (s := { s with scanRecv := some info }) hresume hcmd
        hcancel (Or.inr hsync)
      refine ⟨{ t with scanRecv := none }, by simp only [mgrStep, ht, Option.map_some], ?_⟩
      exact ⟨hran.resume, hran.cmd, hran.cancel, rfl, hran.perAdvSync hsync,
        hran.connected hconn, hran.auth hauth⟩
  | synced =>
      simp only [mgrStep]
      split
      · obtain ⟨t, ht, hafter⟩ := activate_perAdvSync (hsame.setHostSync .established) .synced
        exact ⟨_, by rw [ht, Option.map_some], hafter⟩
      · exact ⟨s, rfl, hsame⟩
  | term current =>
      have hhost : Consistent (if current then { s with hostSync := .none } else s) := by
        split
        · exact hsame.setHostSync .none
        · exact hsame
      obtain ⟨t, ht, hafter⟩ := activate_perAdvSync hhost .term
      exact ⟨_, by rw [mgrStep, mgrPerAdvSyncTerm, ht, Option.map_some], hafter⟩
  | recv time data =>
      obtain ⟨t, ht, hafter⟩ := activate_perAdvSync hsame (.recv time data)
      exact ⟨_, by rw [mgrStep, ht, Option.map_some], hafter⟩
  | connected event =>
      obtain ⟨t, ht, hran⟩ := activate_ran (s := { s with connected := some event }) hresume hcmd
        hcancel (Or.inl hscan)
      refine ⟨{ t with connected := none }, by simp only [mgrStep, ht, Option.map_some], ?_⟩
      exact ⟨hran.resume, hran.cmd, hran.cancel, hran.scanRecv hscan, hran.perAdvSync hsync, rfl,
        hran.auth hauth⟩
  | disconnected =>
      obtain ⟨t, ht, hran⟩ := activate_ran hresume hcmd hcancel (Or.inl hscan)
      exact ⟨t, ht, hran.consistent ⟨hscan, hsync, hconn, hauth⟩⟩
  | auth event =>
      obtain ⟨t, ht, hran⟩ := activate_ran (s := { s with auth := some event }) hresume hcmd
        hcancel (Or.inl hscan)
      refine ⟨{ t with auth := none }, by simp only [mgrStep, ht, Option.map_some], ?_⟩
      exact ⟨hran.resume, hran.cmd, hran.cancel, hran.scanRecv hscan, hran.perAdvSync hsync,
        hran.connected hconn, rfl⟩
  | bond addr => exact ⟨_, rfl, hresume, hcmd, hcancel, hscan, hsync, hconn, hauth⟩
  | pairStart => exact absurd rfl hi

theorem mgrPairStart_pairing {s : Manager} (hs : Consistent s) (hsync : ¬ SyncEstablished s) :
    ∃ t, mgrPairStart s = some t ∧ Pairing s t ∧ Consistent t := by
  obtain ⟨hresume, -, -, hloans⟩ := hs
  obtain ⟨t, ht, hpairing, hran⟩ := runFrom_requested 5
    (s := { s with cmd := .pair, cancelCommand := true }) hresume ⟨rfl, rfl, hloans.1⟩ hsync
  refine ⟨t, ht, ?_, hran.consistent hloans⟩
  exact ⟨hpairing.run, hpairing.pair, hpairing.fresh, hpairing.begun, hpairing.taken, hpairing.cmd,
    hpairing.cancel⟩

theorem mgrPairStart_lost {s : Manager} (hs : Consistent s) (hsync : SyncEstablished s) :
    ∃ t, mgrPairStart s = some t ∧ t.runState ≠ some .pair := by
  have h := hsync.inSync hs.resume
  obtain ⟨t, ht, hne⟩ := runFrom_lost 3 (s := { s with cmd := .pair, cancelCommand := true })
    ⟨h.run, h.state, h.sync, h.scanning⟩ hsync.2.2 ⟨rfl, rfl, hs.loans.1⟩
  refine ⟨t, ?_, hne⟩
  simp only [mgrPairStart, activate, h.run, resumePoint]
  rw [h.run] at ht
  exact ht

/-- Every call returns, and a call of `mgr_pair_start` leaves `mgr_run` in a
`mgr_pair` that has begun. -/
def Answered (s : Manager) (i : Input) : Prop :=
  ∃ t, mgrStep s i = some t ∧ (i = .pairStart → Pairing s t)

/-- No request is made while `mgr_sync` follows a sync that is established. -/
def NotEstablished (s : Manager) (i : Input) : Prop :=
  i = .pairStart → ¬ SyncEstablished s

theorem answered_iff {s : Manager} (hs : Consistent s) (i : Input) :
    Answered s i ↔ NotEstablished s i := by
  rcases Decidable.em (i = .pairStart) with rfl | hi
  · simp only [Answered, NotEstablished, true_imp_iff]
    constructor
    · rintro ⟨t, ht, hpairing⟩ hsync
      obtain ⟨u, hu, hne⟩ := mgrPairStart_lost hs hsync
      obtain rfl : t = u := Option.some.inj (ht.symm.trans hu)
      exact hne hpairing.run
    · intro hsync
      obtain ⟨t, ht, hpairing, -⟩ := mgrPairStart_pairing hs hsync
      exact ⟨t, ht, hpairing⟩
  · refine iff_of_true ?_ fun h => absurd h hi
    obtain ⟨t, ht, -⟩ := mgrStep_consistent hs hi
    exact ⟨t, ht, fun h => absurd h hi⟩

/-- The manager after a call; a call that does not return leaves it. -/
def next (s : Manager) (i : Input) : Manager :=
  (mgrStep s i).getD s

def booted (paired : Option Addr) : Manager :=
  (activate (mgrBoot paired)).getD (mgrBoot paired)

theorem next_consistent {s : Manager} {i : Input} (hs : Consistent s) (hi : NotEstablished s i) :
    Consistent (next s i) := by
  have hstep : ∃ t, mgrStep s i = some t ∧ Consistent t := by
    rcases Decidable.em (i = .pairStart) with rfl | hne
    · obtain ⟨t, ht, -, hconsistent⟩ := mgrPairStart_pairing hs (hi rfl)
      exact ⟨t, ht, hconsistent⟩
    · exact mgrStep_consistent hs hne
  obtain ⟨t, ht, hconsistent⟩ := hstep
  rw [next, ht]
  exact hconsistent

theorem booted_consistent (paired : Option Addr) : Consistent (booted paired) := by
  obtain ⟨t, ht, hran, -⟩ := runFrom_loop 6 (s := mgrBoot paired) ⟨rfl, rfl⟩ rfl (Or.inl rfl)
  have hboot : activate (mgrBoot paired) = some t := ht
  rw [booted, hboot]
  exact hran.consistent ⟨rfl, rfl, rfl, rfl⟩

/-- No request to pair is lost exactly in the runs in which none is made while a
sync is established. -/
theorem along_answered_iff (paired : Option Addr) (inputs : List Input) :
    Along next Answered (booted paired) inputs ↔
      Along next NotEstablished (booted paired) inputs :=
  along_iff_of_invariant (fun _ i hs => answered_iff hs i) (fun _ _ => next_consistent)
    (booted_consistent paired)

/-- The request that is made in a sync finds the manager scanning for the sync
again, and its `mgr_pair` gone. -/
theorem not_answered_in_sync :
    ¬ Along next Answered (booted (some 7))
      [.scanRecv ⟨7, true, 5, 1, []⟩, .synced, .pairStart] := by
  rintro ⟨-, -, ⟨t, ht, hpairing⟩, -⟩
  have hrun : ((mgrStep (next (next (booted (some 7)) (.scanRecv ⟨7, true, 5, 1, []⟩)) .synced)
      .pairStart).map Manager.runState) = some (some .sync) := by decide
  rw [ht] at hrun
  exact absurd ((hpairing rfl).run.symm.trans (Option.some.inj hrun)) (by decide)

end ZeusLe.PairRequest
