import ZeusLe.Errno
import ZeusLe.Library.Run

/-!
The commands of the central, `central/app/src/main.c`, and its connectable
advertising, which is open to every device only while the central pairs.
-/

namespace ZeusLe.CentralPairing

open ZeusLe.Library.Run

inductive CentralState where
  | idle
  | pairing
  | recording
  deriving DecidableEq, Repr

/-- The options of `adv_param`. -/
structure AdvOptions where
  extAdv : Bool
  useIdentity : Bool
  connectable : Bool
  useName : Bool
  filterConn : Bool
  filterScanReq : Bool
  deriving DecidableEq, Repr

/-- The advertising set, with the options that the host was given for it. -/
structure ExtAdv where
  options : AdvOptions
  running : Bool
  deriving DecidableEq, Repr

structure Central where
  state : CentralState
  /-- `adv_param.options`. -/
  options : AdvOptions
  adv : Option ExtAdv
  deriving DecidableEq, Repr

/-- The static value of `central_data`. -/
def boot : Central where
  state := .idle
  options := ⟨true, true, true, true, true, true⟩
  adv := none

/-! The calls of the Bluetooth host; a call that fails changes nothing. -/

def btLeExtAdvCreate (io : Int) (options : AdvOptions) (adv : Option ExtAdv) :
    Int × Option ExtAdv :=
  if io ≠ 0 then (io, adv) else (0, some ⟨options, false⟩)

def btLeExtAdvSetRunning (running : Bool) (io : Int) (adv : Option ExtAdv) : Int × Option ExtAdv :=
  if io ≠ 0 then (io, adv) else (0, adv.map fun adv => { adv with running := running })

def btLeExtAdvStart (io : Int) (adv : Option ExtAdv) : Int × Option ExtAdv :=
  btLeExtAdvSetRunning true io adv

def btLeExtAdvStop (io : Int) (adv : Option ExtAdv) : Int × Option ExtAdv :=
  btLeExtAdvSetRunning false io adv

def btLeExtAdvUpdateParam (io : Int) (options : AdvOptions) (adv : Option ExtAdv) :
    Int × Option ExtAdv :=
  if io ≠ 0 then (io, adv) else (0, adv.map fun adv => { adv with options := options })

structure InitIo where
  create : Int := 0
  setData : Int := 0
  start : Int := 0

def connectAdvInit (io : InitIo) (s : Central) : Int × Central :=
  let (ret, adv) := btLeExtAdvCreate io.create s.options s.adv
  let s := { s with adv := adv }
  if ret ≠ 0 then (ret, s)
  else if io.setData ≠ 0 then (io.setData, s)
  else
    let (ret, adv) := btLeExtAdvStart io.start s.adv
    (ret, { s with adv := adv })

structure PairIo where
  stop : Int := 0
  updateParam : Int := 0
  start : Int := 0

def connectAdvSetPairing (io : Int) (pairing : Bool) (s : Central) : Int × Central :=
  let options := { s.options with filterConn := !pairing, filterScanReq := !pairing }
  let (ret, adv) := btLeExtAdvUpdateParam io options s.adv
  (ret, { s with options := options, adv := adv })

def centralPair (io : PairIo) (s : Central) : Int × Central :=
  if s.state ≠ .idle then (-ebusy, s)
  else
    let (ret, adv) := btLeExtAdvStop io.stop s.adv
    let s := { s with adv := adv }
    if ret ≠ 0 then (ret, s)
    else
      let (ret, s) := connectAdvSetPairing io.updateParam true s
      if ret ≠ 0 then (ret, s)
      else
        let (ret, adv) := btLeExtAdvStart io.start s.adv
        let s := { s with adv := adv }
        if ret ≠ 0 then (ret, s) else (0, { s with state := .pairing })

/-- A command for the audio nodes, whose result is `io`. -/
def sendCmd (io : Int) (after : CentralState) (s : Central) : Int × Central :=
  if s.state = .pairing then (-ebusy, s)
  else if io ≠ 0 then (io, s)
  else (0, { s with state := after })

def centralStart (io : Int) (s : Central) : Int × Central :=
  sendCmd io .recording s

def centralStop (io : Int) (s : Central) : Int × Central :=
  sendCmd io .idle s

/-- `io` is the result of `sync_cmd_start` or of `sync_cmd_stop`. -/
def centralToggle (io : Int) (s : Central) : Int × Central :=
  match s.state with
  | .pairing => (-ebusy, s)
  | .idle => if io ≠ 0 then (io, s) else (0, { s with state := .recording })
  | .recording => if io ≠ 0 then (io, s) else (0, { s with state := .idle })

inductive Input where
  | pair (io : PairIo)
  | start (io : Int)
  | stop (io : Int)
  | toggle (io : Int)

def call (s : Central) : Input → Int × Central
  | .pair io => centralPair io s
  | .start io => centralStart io s
  | .stop io => centralStop io s
  | .toggle io => centralToggle io s

def step (s : Central) (i : Input) : Central :=
  (call s i).2

/-- The filters are set and the set is running unless the central pairs. -/
def Closed (s : Central) : Prop :=
  s.state ≠ .pairing →
    (s.options.filterConn = true ∧ s.options.filterScanReq = true) ∧
      ∃ adv, s.adv = some adv ∧ adv.running = true

/-- A call of `central_pair` that returns an error changes neither the
advertising nor its parameters. -/
def PairAtomic (s : Central) (i : Input) : Prop :=
  ∀ io, i = .pair io → (call s i).1 ≠ 0 →
    (call s i).2.options = s.options ∧ (call s i).2.adv = s.adv

/-- The call stops the advertising and fails behind that. -/
def Interrupted (s : Central) : Input → Prop
  | .pair io => s.state = .idle ∧ io.stop = 0 ∧ (io.updateParam ≠ 0 ∨ io.start ≠ 0)
  | .start _ | .stop _ | .toggle _ => False

theorem connectAdvInit_ok {io : InitIo} (hok : (connectAdvInit io boot).1 = 0) :
    (connectAdvInit io boot).2 = { boot with adv := some ⟨boot.options, true⟩ } := by
  have hcreate : io.create = 0 := by
    apply Classical.byContradiction
    intro hne
    simp [connectAdvInit, btLeExtAdvCreate, hne] at hok
  have hdata : io.setData = 0 := by
    apply Classical.byContradiction
    intro hne
    simp [connectAdvInit, btLeExtAdvCreate, hcreate, hne] at hok
  have hstart : io.start = 0 := by
    apply Classical.byContradiction
    intro hne
    simp [connectAdvInit, btLeExtAdvCreate, btLeExtAdvStart, btLeExtAdvSetRunning, hcreate, hdata,
      hne] at hok
  simp [connectAdvInit, btLeExtAdvCreate, btLeExtAdvStart, btLeExtAdvSetRunning, hcreate, hdata,
    hstart]

theorem closed_connected {io : InitIo} (hok : (connectAdvInit io boot).1 = 0) :
    Closed (connectAdvInit io boot).2 := by
  rw [connectAdvInit_ok hok]
  intro _
  exact ⟨⟨rfl, rfl⟩, _, rfl, rfl⟩

theorem centralPair_cases (io : PairIo) (s : Central) :
    (¬ Interrupted s (.pair io) ∧ (centralPair io s).1 ≠ 0 ∧ (centralPair io s).2 = s) ∨
      (Interrupted s (.pair io) ∧ (centralPair io s).1 ≠ 0 ∧
        (centralPair io s).2.state = .idle ∧ (centralPair io s).2.options.filterConn = false) ∨
      (¬ Interrupted s (.pair io) ∧ (centralPair io s).1 = 0 ∧
        (centralPair io s).2.state = .pairing) := by
  rcases Classical.em (s.state = .idle) with hidle | hbusy
  · rcases Classical.em (io.stop = 0) with hstop | hstop
    · rcases Classical.em (io.updateParam = 0) with hupdate | hupdate
      · rcases Classical.em (io.start = 0) with hstart | hstart
        · right; right
          simp [Interrupted, centralPair, connectAdvSetPairing, btLeExtAdvStop, btLeExtAdvStart,
            btLeExtAdvSetRunning, btLeExtAdvUpdateParam, hidle, hstop, hupdate, hstart]
        · right; left
          simp [Interrupted, centralPair, connectAdvSetPairing, btLeExtAdvStop, btLeExtAdvStart,
            btLeExtAdvSetRunning, btLeExtAdvUpdateParam, hidle, hstop, hupdate, hstart]
      · right; left
        simp [Interrupted, centralPair, connectAdvSetPairing, btLeExtAdvStop,
          btLeExtAdvSetRunning, btLeExtAdvUpdateParam, hidle, hstop, hupdate]
    · left
      have hpair : centralPair io s = (io.stop, s) := by
        simp only [centralPair, btLeExtAdvStop, btLeExtAdvSetRunning, ne_eq, hidle, hstop,
          not_true_eq_false, not_false_eq_true, if_true, if_false]
        rw [← hidle]
      rw [hpair]
      exact ⟨fun h => hstop h.2.1, hstop, rfl⟩
  · left
    simp [Interrupted, centralPair, hbusy, ebusy]

theorem centralToggle_eq (io : Int) (s : Central) :
    centralToggle io s = sendCmd io (if s.state = .idle then .recording else .idle) s := by
  simp only [centralToggle, sendCmd]
  cases s.state <;> rfl

theorem sendCmd_cases (io : Int) (after : CentralState) (s : Central) :
    (sendCmd io after s).2 = s ∨
      (s.state ≠ .pairing ∧ (sendCmd io after s).2 = { s with state := after }) := by
  rw [sendCmd]
  split
  · exact Or.inl rfl
  · rename_i hpairing
    split
    · exact Or.inl rfl
    · exact Or.inr ⟨hpairing, rfl⟩

theorem closed_sendCmd {s : Central} (hs : Closed s) (io : Int) (after : CentralState) :
    Closed (sendCmd io after s).2 := by
  rcases sendCmd_cases io after s with hsame | ⟨hpairing, hafter⟩
  · rwa [hsame]
  · rw [hafter]
    intro _
    exact hs hpairing

theorem closed_step_iff {s : Central} (hs : Closed s) (i : Input) :
    Closed (step s i) ∧ PairAtomic s i ↔ ¬ Interrupted s i := by
  cases i with
  | pair io =>
      rcases centralPair_cases io s with ⟨hnot, hret, hsame⟩ | ⟨hinterrupted, hret, hstate, hopen⟩ |
        ⟨hnot, hret, hstate⟩
      · refine iff_of_true ⟨?_, ?_⟩ hnot
        · change Closed (centralPair io s).2
          rwa [hsame]
        · intro io' heq _
          obtain rfl := Input.pair.inj heq
          change (centralPair io s).2.options = _ ∧ (centralPair io s).2.adv = _
          rw [hsame]
          exact ⟨rfl, rfl⟩
      · refine iff_of_false ?_ (not_not.mpr hinterrupted)
        rintro ⟨hclosed, -⟩
        have hfilter := (hclosed (by change (centralPair io s).2.state ≠ _; simp [hstate])).1.1
        change (centralPair io s).2.options.filterConn = true at hfilter
        rw [hopen] at hfilter
        cases hfilter
      · refine iff_of_true ⟨fun hpairing => absurd hstate hpairing, ?_⟩ hnot
        intro io' heq hfail
        obtain rfl := Input.pair.inj heq
        exact absurd hret hfail
  | start io =>
      exact iff_of_true ⟨closed_sendCmd hs io .recording, fun _ heq => nomatch heq⟩ not_false
  | stop io => exact iff_of_true ⟨closed_sendCmd hs io .idle, fun _ heq => nomatch heq⟩ not_false
  | toggle io =>
      refine iff_of_true ⟨?_, fun _ heq => nomatch heq⟩ not_false
      change Closed (centralToggle io s).2
      rw [centralToggle_eq]
      exact closed_sendCmd hs io _

/-- From a connected central on, the window is the only time it is open in
exactly the runs that never interrupt a `central_pair`. -/
theorem closed_run_iff {io : InitIo} (hok : (connectAdvInit io boot).1 = 0)
    (inputs : List Input) :
    (Closed (connectAdvInit io boot).2 ∧
        Along step (fun s i => Closed (step s i) ∧ PairAtomic s i) (connectAdvInit io boot).2
          inputs) ↔
      Along step (fun s i => ¬ Interrupted s i) (connectAdvInit io boot).2 inputs := by
  have hclosed := closed_connected hok
  have hiff : ∀ s i, Closed s → (Closed (step s i) ∧ PairAtomic s i ↔ ¬ Interrupted s i) :=
    fun s i hs => closed_step_iff hs i
  have hkeeps : ∀ s i, Closed s → ¬ Interrupted s i → Closed (step s i) :=
    fun s i hs hi => ((closed_step_iff hs i).mpr hi).1
  rw [and_iff_right hclosed]
  exact along_iff_of_invariant hiff hkeeps hclosed

theorem closed_run_iff_connected :
    (Closed (connectAdvInit {} boot).2 ∧
        Along step (fun s i => Closed (step s i) ∧ PairAtomic s i) (connectAdvInit {} boot).2
          [.pair {}, .stop 0]) ↔
      Along step (fun s i => ¬ Interrupted s i) (connectAdvInit {} boot).2 [.pair {}, .stop 0] :=
  closed_run_iff rfl [.pair {}, .stop 0]

/-- `bt_le_ext_adv_start` fails, and the central is left idle and without
filters. -/
theorem interrupted_pair_open :
    ¬ Along step (fun s i => Closed (step s i) ∧ PairAtomic s i) (connectAdvInit {} boot).2
      [.pair { start := -5 }] := by
  rintro ⟨⟨hclosed, -⟩, -⟩
  have hfilter := (hclosed (by decide)).1.1
  revert hfilter
  decide

end ZeusLe.CentralPairing
