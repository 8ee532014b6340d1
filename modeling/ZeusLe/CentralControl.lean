import ZeusLe.CentralPairing
import ZeusLe.CommandDelivery
import ZeusLe.Library.DelayedWork
import ZeusLe.Library.Run

/-!
The application core of the central: its button and its shell commands,
`central/app/src/main.c`, together with the commands that go out.
-/

namespace ZeusLe.CentralControl

open ZeusLe.Broadcast (initial)
open ZeusLe.CentralPairing (Central CentralState InitIo PairIo boot centralPair centralStart
  centralStop centralToggle connectAdvInit)
open ZeusLe.CentralSync
open ZeusLe.CommandDelivery (Tracks tracks_initial tracks_step)
open ZeusLe.Library.DelayedWork (Early Quiet Watch not_pending_idle quiet_change quiet_step take
  timeout_due)
open ZeusLe.Library.Run
open ZeusLe.Mgr
open ZeusLe.Protocol

/-- `buttonReady` is set once the pin interrupts, and `button` counts the runs of
the work item. -/
structure Control where
  central : Central
  sync : Broadcast.State
  buttonReady : Bool
  buttonBootReleased : Bool
  button : Watch Unit
  deriving DecidableEq, Repr

def controlInitial : Control where
  central := boot
  sync := initial
  buttonReady := false
  buttonBootReleased := false
  button := ⟨(), .idle, []⟩

/-- Milliseconds. -/
def buttonDebounce : Nat := 50

section

variable (T : Nat → UInt32)

def start (s : Control) : Control :=
  { s with
    central := (centralStart (syncCmdStart s.sync.central).1 s.central).2
    sync := if s.central.state = .pairing then s.sync else Broadcast.step T s.sync .start }

def stop (s : Control) : Control :=
  { s with
    central := (centralStop (syncCmdStop s.sync.central).1 s.central).2
    sync := if s.central.state = .pairing then s.sync else Broadcast.step T s.sync .stop }

def toggle (s : Control) : Control :=
  match s.central.state with
  | .pairing => s
  | .idle =>
      { s with
        central := (centralToggle (syncCmdStart s.sync.central).1 s.central).2
        sync := Broadcast.step T s.sync .start }
  | .recording =>
      { s with
        central := (centralToggle (syncCmdStop s.sync.central).1 s.central).2
        sync := Broadcast.step T s.sync .stop }

def buttonReleaseWorkHandler (s : Control) : Control :=
  if s.buttonBootReleased then toggle T s else { s with buttonBootReleased := true }

/-- What the central reacts to. `buttonConfigure` and `buttonRead` are the two
halves of `button_init`; times are in milliseconds. -/
inductive Event where
  | advInit (io : InitIo)
  | transmit
  | ipcRecv
  | update (err : Int)
  | pair (io : PairIo)
  | start
  | stop
  | buttonConfigure (ret : Int)
  | buttonRead (held : Bool)
  | release (now : Nat)
  | timeout (now : Nat)
  | handle

def step (s : Control) : Event → Control
  | .advInit io => { s with central := (connectAdvInit io s.central).2 }
  | .transmit => { s with sync := Broadcast.step T s.sync .transmit }
  | .ipcRecv => { s with sync := Broadcast.step T s.sync .ipcRecv }
  | .update err => { s with sync := Broadcast.step T s.sync (.update err) }
  | .pair io => { s with central := (centralPair io s.central).2 }
  | .start => start T s
  | .stop => stop T s
  | .buttonConfigure ret => if ret ≠ 0 then s else { s with buttonReady := true }
  | .buttonRead held =>
      { s with buttonBootReleased := if held then s.buttonBootReleased else true }
  | .release now =>
      if s.buttonReady then
        { s with button := Library.DelayedWork.step buttonDebounce s.button (.change now ()) }
      else s
  | .timeout now =>
      { s with button := Library.DelayedWork.step buttonDebounce s.button (.timeout now) }
  | .handle =>
      let queued := s.button.work.queued
      let s := { s with button := Library.DelayedWork.step buttonDebounce s.button .handle }
      if queued then buttonReleaseWorkHandler T s else s

end

def IsStart (call : Option RecordCall) : Prop :=
  ∃ time, call = some (.start time)

/-- The last command that was accepted is a start exactly in the recording state;
the last one that was taken from the queue decides the data and the LED. -/
structure Agrees (s : Control) : Prop where
  tracks : Tracks s.sync
  state : s.central.state = .recording ↔ IsStart s.sync.accepted.getLast?
  cmd : s.sync.central.advData.cmd = .none ∨
    ZeusAdvCmd.call s.sync.central.advData.cmd =
      (s.sync.accepted.take s.sync.taken).getLast?
  led : s.sync.central.led ≠ .idle ↔ IsStart (s.sync.accepted.take s.sync.taken).getLast?

theorem agrees_initial : Agrees controlInitial where
  tracks := tracks_initial
  state := iff_of_false (by decide) fun ⟨_, h⟩ => nomatch h
  cmd := Or.inl rfl
  led := iff_of_false (by decide) fun ⟨_, h⟩ => nomatch h

theorem Agrees.of_eq {s s' : Control} (hs : Agrees s) (hsync : s'.sync = s.sync)
    (hstate : s'.central.state = .recording ↔ s.central.state = .recording) : Agrees s' where
  tracks := hsync ▸ hs.tracks
  state := by
    rw [hstate, hsync]
    exact hs.state
  cmd := by
    rw [hsync]
    exact hs.cmd
  led := by
    rw [hsync]
    exact hs.led

theorem agrees_sendCmd {s : Control} (hs : Agrees s) (hpairing : s.central.state ≠ .pairing)
    {cmd : ZeusAdvCmd} {call : RecordCall} {after : CentralState} (hcall : ZeusAdvCmd.call cmd = some call)
    (hafter : after = .recording ↔ IsStart (some call)) :
    Agrees { s with
      central := (CentralPairing.sendCmd (putCmd cmd s.sync.central).1 after s.central).2
      sync := Broadcast.accept call (putCmd cmd s.sync.central) s.sync } := by
  have htracks := CommandDelivery.tracks_accept hs.tracks hcall
  rcases Classical.em (s.sync.central.cmdQueue.length < syncCmdQueueLen) with hroom | hfull
  · have hput : putCmd cmd s.sync.central =
        (0, { s.sync.central with cmdQueue := s.sync.central.cmdQueue ++ [cmd] }) := if_pos hroom
    have htake : (s.sync.accepted ++ [call]).take s.sync.taken =
        s.sync.accepted.take s.sync.taken :=
      List.take_append_of_le_length hs.tracks.taken_le
    rw [hput] at htracks ⊢
    simp only [CentralPairing.sendCmd, if_neg hpairing, ne_eq, not_true_eq_false, if_false]
    refine ⟨htracks, ?_, ?_, ?_⟩
    · simp only [Broadcast.accept, if_true, List.getLast?_concat]
      exact hafter
    · simp only [Broadcast.accept, if_true, htake]
      exact hs.cmd
    · simp only [Broadcast.accept, if_true, htake]
      exact hs.led
  · have hput : putCmd cmd s.sync.central = (-enomsg, s.sync.central) := if_neg hfull
    have hret : -enomsg ≠ 0 := by decide
    rw [hput] at htracks ⊢
    simp only [CentralPairing.sendCmd, if_neg hpairing, if_pos hret]
    refine ⟨htracks, ?_, ?_, ?_⟩
    · simp only [Broadcast.accept, if_neg hret]
      exact hs.state
    · simp only [Broadcast.accept, if_neg hret]
      exact hs.cmd
    · simp only [Broadcast.accept, if_neg hret]
      exact hs.led

theorem isStart_start (time : UInt32) : IsStart (some (.start time)) :=
  ⟨time, rfl⟩

theorem not_isStart_stop : ¬ IsStart (some .stop) := by
  rintro ⟨time, h⟩
  cases h

theorem agrees_start (T : Nat → UInt32) {s : Control} (hs : Agrees s) : Agrees (start T s) := by
  rw [start]
  rcases Classical.em (s.central.state = .pairing) with hpairing | hpairing
  · refine hs.of_eq ?_ ?_
    · simp only [if_pos hpairing]
    · rw [centralStart, CentralPairing.sendCmd, if_pos hpairing]
  · rw [if_neg hpairing]
    exact agrees_sendCmd hs hpairing rfl (iff_of_true rfl (isStart_start _))

theorem agrees_stop (T : Nat → UInt32) {s : Control} (hs : Agrees s) : Agrees (stop T s) := by
  rw [stop]
  rcases Classical.em (s.central.state = .pairing) with hpairing | hpairing
  · refine hs.of_eq ?_ ?_
    · simp only [if_pos hpairing]
    · rw [centralStop, CentralPairing.sendCmd, if_pos hpairing]
  · rw [if_neg hpairing]
    exact agrees_sendCmd hs hpairing rfl (iff_of_false (by decide) not_isStart_stop)

theorem toggle_eq (T : Nat → UInt32) (s : Control) :
    toggle T s = if s.central.state = .idle then start T s else
      if s.central.state = .recording then stop T s else s := by
  simp only [toggle, start, stop, centralStart, centralStop, CentralPairing.centralToggle_eq]
  cases s.central.state <;> rfl

theorem agrees_toggle (T : Nat → UInt32) {s : Control} (hs : Agrees s) : Agrees (toggle T s) := by
  rw [toggle_eq]
  split
  · exact agrees_start T hs
  · split
    · exact agrees_stop T hs
    · exact hs

/-- What an update shows: `taken` is the command in the data before an old start is
cleared. -/
structure Shows (taken : ZeusAdvCmd) (s s' : SyncData) : Prop where
  cmd : s'.advData.cmd = .none ∨ s'.advData.cmd = taken
  start : ∀ time, taken = .start time → s'.led ≠ .idle
  stop : taken = .stop → s'.led = .idle
  none : taken = .none → s'.led = s.led

theorem shows_clearCmd (newCmd : Bool) (s : SyncData) :
    Shows s.advData.cmd s (clearCmd newCmd s).2 := by
  cases hcmd : s.advData.cmd with
  | none =>
      simp only [clearCmd, hcmd]
      exact ⟨Or.inl hcmd, fun _ h => ZeusAdvCmd.noConfusion h,
        fun h => ZeusAdvCmd.noConfusion h, fun _ => rfl⟩
  | start time =>
      have hled : (if syncTimeDiff time s.advData.hdr.sync.prevTime > 0
          then Record.LedRecordState.waiting else .running) ≠ .idle := by
        split <;> decide
      simp only [clearCmd, hcmd]
      split
      · exact ⟨Or.inl rfl, fun _ _ => hled, fun h => ZeusAdvCmd.noConfusion h,
          fun h => ZeusAdvCmd.noConfusion h⟩
      · exact ⟨Or.inr hcmd, fun _ _ => hled, fun h => ZeusAdvCmd.noConfusion h,
          fun h => ZeusAdvCmd.noConfusion h⟩
  | stop =>
      simp only [clearCmd, hcmd]
      exact ⟨Or.inr hcmd, fun _ h => ZeusAdvCmd.noConfusion h, fun _ => rfl,
        fun h => ZeusAdvCmd.noConfusion h⟩

theorem shows_syncAdvUpdateData (s : SyncData) :
    Shows (takeCmd s).2.advData.cmd s (syncAdvUpdateData s).2 := by
  have hled : (takeCmd s).2.led = s.led := by
    rw [takeCmd]
    split <;> rfl
  have hclear := shows_clearCmd (takeCmd s).1 (takeCmd s).2
  simp only [syncAdvUpdateData]
  split
  · exact ⟨hclear.cmd, hclear.start, hclear.stop, fun h => (hclear.none h).trans hled⟩
  · exact ⟨hclear.cmd, hclear.start, hclear.stop, fun h => (hclear.none h).trans hled⟩

theorem Shows.agrees {taken : ZeusAdvCmd} {s s' : SyncData} {last last' : Option RecordCall}
    (h : Shows taken s s') (hcall : taken ≠ .none → ZeusAdvCmd.call taken = last')
    (hnone : taken = .none → last' = last) (hled : s.led ≠ .idle ↔ IsStart last) :
    (s'.advData.cmd = .none ∨ ZeusAdvCmd.call s'.advData.cmd = last') ∧
      (s'.led ≠ .idle ↔ IsStart last') := by
  cases taken with
  | none =>
      rw [h.none rfl, hnone rfl]
      exact ⟨Or.inl (h.cmd.elim id id), hled⟩
  | start time =>
      rw [← hcall nofun]
      refine ⟨?_, iff_of_true (h.start time rfl) (isStart_start time)⟩
      rcases h.cmd with hcmd | hcmd
      · exact Or.inl hcmd
      · rw [hcmd]
        exact Or.inr rfl
  | stop =>
      rw [← hcall nofun]
      refine ⟨?_, iff_of_false (not_not.mpr (h.stop rfl)) not_isStart_stop⟩
      rcases h.cmd with hcmd | hcmd
      · exact Or.inl hcmd
      · rw [hcmd]
        exact Or.inr rfl

theorem agrees_update (err : Int) {s : Control} (hs : Agrees s) :
    Agrees { s with sync := Broadcast.syncAdvUpdateHandler err s.sync } := by
  have hshows := shows_syncAdvUpdateData s.sync.central
  have hqueue := hs.tracks.queue
  have hagrees : let taken := if s.sync.central.cmdQueue.isEmpty then s.sync.taken
        else s.sync.taken + 1
      ((syncAdvUpdateData s.sync.central).2.advData.cmd = .none ∨
          ZeusAdvCmd.call (syncAdvUpdateData s.sync.central).2.advData.cmd =
            (s.sync.accepted.take taken).getLast?) ∧
        ((syncAdvUpdateData s.sync.central).2.led ≠ .idle ↔
          IsStart (s.sync.accepted.take taken).getLast?) := by
    cases hcmds : s.sync.central.cmdQueue with
    | nil =>
        simp only [takeCmd, hcmds] at hshows
        exact hshows.agrees (fun hcmd => hs.cmd.resolve_left hcmd) (fun _ => rfl) hs.led
    | cons cmd queue =>
        simp only [takeCmd, hcmds] at hshows
        rw [hcmds] at hqueue
        cases hdrop : s.sync.accepted.drop s.sync.taken with
        | nil =>
            rw [hdrop] at hqueue
            cases hqueue
        | cons call rest =>
            rw [hdrop] at hqueue
            have hcall : ZeusAdvCmd.call cmd = some call := (List.cons.inj hqueue).1
            have hlast : (s.sync.accepted.take (s.sync.taken + 1)).getLast? = some call := by
              rw [List.take_add_one, ← List.head?_drop, hdrop]
              exact List.getLast?_concat
            apply hshows.agrees (fun _ => hcall.trans hlast.symm) _ hs.led
            rintro rfl
            cases hcall
  exact
    { tracks := CommandDelivery.tracks_syncAdvUpdateHandler err hs.tracks
      state := hs.state
      cmd := hagrees.1
      led := hagrees.2 }

theorem connectAdvInit_state (io : InitIo) (s : Central) :
    (connectAdvInit io s).2.state = s.state := by
  simp only [connectAdvInit]
  split
  · rfl
  · split
    · rfl
    · rfl

theorem centralPair_recording (io : PairIo) (s : Central) :
    (centralPair io s).2.state = .recording ↔ s.state = .recording := by
  rcases Classical.em (s.state = .idle) with hidle | hbusy
  · have hnot : s.state ≠ .recording := by
      rw [hidle]
      decide
    refine iff_of_false ?_ hnot
    rcases CentralPairing.centralPair_cases io s with
      ⟨-, -, hsame⟩ | ⟨-, -, hstate, -⟩ | ⟨-, -, hstate⟩
    · rw [hsame]
      exact hnot
    · rw [hstate]
      decide
    · rw [hstate]
      decide
  · rw [centralPair, if_pos hbusy]

theorem agrees_step (T : Nat → UInt32) (s : Control) (event : Event) (hs : Agrees s) :
    Agrees (step T s event) := by
  cases event with
  | advInit io => exact hs.of_eq rfl (by rw [step, connectAdvInit_state])
  | transmit => exact ⟨tracks_step T hs.tracks .transmit, hs.state, hs.cmd, hs.led⟩
  | ipcRecv =>
      have htracks := tracks_step T hs.tracks .ipcRecv
      simp only [step, Broadcast.step] at htracks ⊢
      split at htracks
      · exact hs
      · exact ⟨htracks, hs.state, hs.cmd, hs.led⟩
  | update err =>
      simp only [step, Broadcast.step]
      split
      · exact agrees_update err hs
      · exact hs
  | pair io => exact hs.of_eq rfl (centralPair_recording io s.central)
  | start => exact agrees_start T hs
  | stop => exact agrees_stop T hs
  | buttonConfigure ret =>
      simp only [step]
      split
      · exact hs
      · exact hs.of_eq rfl Iff.rfl
  | buttonRead held => exact hs.of_eq rfl Iff.rfl
  | release now =>
      simp only [step]
      split
      · exact hs.of_eq rfl Iff.rfl
      · exact hs
  | timeout now => exact hs.of_eq rfl Iff.rfl
  | handle =>
      simp only [step, buttonReleaseWorkHandler]
      split
      · split
        · exact agrees_toggle T (hs.of_eq rfl Iff.rfl)
        · exact hs.of_eq rfl Iff.rfl
      · exact hs.of_eq rfl Iff.rfl

theorem agrees_run (T : Nat → UInt32) (events : List Event) :
    Agrees (run (step T) controlInitial events) :=
  invariant_run_of_step (agrees_step T) agrees_initial events

/-- Whatever the button, the shell and the radio do, the central is in its
recording state exactly when the last command that it accepted is a start, and
when no command waits in its queue the LED shows the same. -/
theorem state_follows_commands (T : Nat → UInt32) (events : List Event) :
    let s := run (step T) controlInitial events
    (s.central.state = .recording ↔ IsStart s.sync.accepted.getLast?) ∧
      (s.sync.central.cmdQueue = [] →
        (s.sync.central.led ≠ .idle ↔ s.central.state = .recording)) := by
  have hs := agrees_run T events
  refine ⟨hs.state, ?_⟩
  intro hempty
  have hqueue := hs.tracks.queue
  rw [hempty] at hqueue
  have hall : (run (step T) controlInitial events).sync.accepted.take
      (run (step T) controlInitial events).sync.taken =
        (run (step T) controlInitial events).sync.accepted := by
    apply List.take_of_length_le
    exact List.drop_eq_nil_iff.mp (List.map_eq_nil_iff.mp hqueue.symm)
  rw [hs.led, hall, hs.state]

def isButton : Event → Bool
  | .release _ => true
  | .timeout _ => true
  | .handle => true
  | _ => false

/-- A release or a timer that comes before the deadline of that moment. -/
def EarlyEvent (s : Control) : Event → Prop
  | .release now => Early s.button (.change now ())
  | .timeout now => Early s.button (.timeout now)
  | _ => True

theorem toggle_button (T : Nat → UInt32) (s : Control) (button : Watch Unit) :
    toggle T { s with button := button } = { toggle T s with button := button } := by
  simp only [toggle]
  cases s.central.state <;> rfl

theorem buttonReleaseWorkHandler_button (T : Nat → UInt32) (s : Control) (button : Watch Unit) :
    buttonReleaseWorkHandler T { s with button := button } =
      { buttonReleaseWorkHandler T s with button := button } := by
  simp only [buttonReleaseWorkHandler]
  split
  · exact toggle_button T s button
  · rfl

theorem step_button (T : Nat → UInt32) (s : Control) (button : Watch Unit) {event : Event}
    (hevent : isButton event = false) :
    step T { s with button := button } event = { step T s event with button := button } := by
  cases event with
  | buttonConfigure ret =>
      simp only [step]
      split <;> rfl
  | release now => cases hevent
  | timeout now => cases hevent
  | handle => cases hevent
  | _ => rfl

theorem step_buttonReady (T : Nat → UInt32) {s : Control} (hready : s.buttonReady = true)
    {event : Event} (hevent : isButton event = false) : (step T s event).buttonReady = true := by
  cases event with
  | buttonConfigure ret =>
      simp only [step]
      split
      · exact hready
      · rfl
  | release now => cases hevent
  | timeout now => cases hevent
  | handle => cases hevent
  | _ => exact hready

theorem step_quiet (T : Nat → UInt32) {seen : List Unit} {s : Control} {button : Watch Unit}
    (hready : s.buttonReady = true) (hquiet : Quiet seen button) {event : Event}
    (hevent : isButton event = true) (hearly : EarlyEvent { s with button := button } event) :
    ∃ button', Quiet seen button' ∧
      step T { s with button := button } event = { s with button := button' } := by
  have hstep (event : Library.DelayedWork.Event Unit) : Quiet seen button → Early button event →
      Quiet seen (Library.DelayedWork.step buttonDebounce button event) :=
    quiet_step (by decide) button event
  cases event with
  | release now =>
      refine ⟨_, hstep (.change now ()) hquiet hearly, ?_⟩
      simp only [step, hready, if_true]
  | timeout now => exact ⟨_, hstep (.timeout now) hquiet hearly, rfl⟩
  | handle =>
      refine ⟨_, hstep .handle hquiet trivial, ?_⟩
      simp only [step, hquiet.queued, Bool.false_eq_true, if_false]
  | _ => cases hevent

theorem run_quiet (T : Nat → UInt32) {seen : List Unit} {s : Control} {button : Watch Unit}
    (hready : s.buttonReady = true) (hquiet : Quiet seen button) {burst : List Event}
    (hburst : Along (step T) EarlyEvent { s with button := button } burst) :
    ∃ button', Quiet seen button' ∧ run (step T) { s with button := button } burst =
      { run (step T) s (burst.filter fun event => !isButton event) with button := button' } := by
  induction burst generalizing s button with
  | nil => exact ⟨button, hquiet, rfl⟩
  | cons event burst ih =>
      obtain ⟨hearly, hrest⟩ := hburst
      cases hevent : isButton event with
      | true =>
          obtain ⟨button', hquiet', hstep⟩ := step_quiet T hready hquiet hevent hearly
          rw [hstep] at hrest
          rw [run_cons, hstep, List.filter_cons_of_neg (by simp [hevent])]
          exact ih hready hquiet' hrest
      | false =>
          rw [step_button T s button hevent] at hrest
          rw [run_cons, step_button T s button hevent,
            List.filter_cons_of_pos (by simp [hevent]), run_cons]
          exact ih (step_buttonReady T hready hevent) hquiet hrest

/-- A release of the button with all of its bounces, each within the delay of the
one before, has the effect of one call of the handler, whatever else the central
does in the meantime: the first since the button was held at boot is noted, and
each later one toggles the recording once. -/
theorem release_toggles_once (T : Nat → UInt32) {s : Control} (hready : s.buttonReady = true)
    (hidle : ¬ s.button.work.Pending) (now late : Nat) (burst : List Event)
    (hburst : Along (step T) EarlyEvent (step T s (.release now)) burst)
    (hlate : ∀ deadline ∈ (run (step T) s (.release now :: burst)).button.work.deadline,
      deadline ≤ late) :
    ∃ button, ¬ button.work.Pending ∧
      run (step T) s (.release now :: burst ++ [.timeout late, .handle]) =
        { buttonReleaseWorkHandler T
            (run (step T) s (burst.filter fun event => !isButton event)) with
          button := button } := by
  have hfirst : step T s (.release now) =
      { s with button := Library.DelayedWork.step buttonDebounce s.button (.change now ()) } := by
    simp only [step, hready, if_true]
  have hquiet : Quiet s.button.seen
      (Library.DelayedWork.step buttonDebounce s.button (.change now ())) :=
    quiet_change (by decide) hidle now ()
  rw [hfirst] at hburst
  obtain ⟨button, hquiet', hrun⟩ := run_quiet T hready hquiet hburst
  have hburst' := (run_cons (step T) s (.release now) burst).trans (hfirst ▸ hrun)
  rw [hburst'] at hlate
  obtain ⟨deadline, hdeadline⟩ := Option.ne_none_iff_exists'.mp hquiet'.deadline
  have hdue := timeout_due hdeadline (hlate deadline hdeadline)
  refine ⟨⟨(), .idle, button.seen ++ [()]⟩, not_pending_idle, ?_⟩
  rw [run_append, hburst']
  simp only [run_cons, run_nil, step, Library.DelayedWork.step, hdue, if_true, take]
  exact buttonReleaseWorkHandler_button T _ _

/-- A central that the button did not turn on. -/
def released : Control :=
  { controlInitial with buttonReady := true, buttonBootReleased := true }

/-- A bounce after 10 ms, and a packet in the meantime. -/
theorem bounce_starts : ∃ button, ¬ button.work.Pending ∧
    run (step fun _ => 0) released
        (.release 0 :: [.release 10, .transmit, .timeout 50] ++ [.timeout 60, .handle]) =
      { buttonReleaseWorkHandler (fun _ => 0) (run (step fun _ => 0) released
          ([.release 10, .transmit, .timeout 50].filter fun event => !isButton event)) with
        button := button } :=
  release_toggles_once (fun _ => 0) rfl (by decide) 0 60 [.release 10, .transmit, .timeout 50]
    ⟨by rintro _ ⟨⟩; decide, trivial, by rintro _ ⟨⟩; decide, trivial⟩ (by rintro _ ⟨⟩; decide)

end ZeusLe.CentralControl
