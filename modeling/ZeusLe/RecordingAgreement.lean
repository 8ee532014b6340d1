import Mathlib.Data.List.Induction
import ZeusLe.CentralControl
import ZeusLe.RecordLed

/-!
The central and its nodes together: the recorders do what the central's state
says, once they have heard of it.
-/

namespace ZeusLe.RecordingAgreement

open ZeusLe.Broadcast (Packet noCommand)
open ZeusLe.CentralControl (Control IsStart agrees_step controlInitial not_isStart_stop)
open ZeusLe.CommandDelivery
open ZeusLe.Library.Run
open ZeusLe.Library.Versions
open ZeusLe.Mgr
open ZeusLe.Record

/-- The command that a call carries out. -/
def command : Record.Call → Option RecordCall
  | .start _ time => some (.start time)
  | .stop _ => some .stop
  | _ => none

/-- The recorder accepts a start, is not shut down, and no error stops it. -/
def Obeys (s : Recorder) : Record.Call → Prop
  | .start audioStart _ => audioStart = 0 ∨ audioStart = -ealready
  | .shutdown _ => False
  | .buffer io block =>
      (recordBuffer io block s).2.data.state = .stopped → s.data.state = .stopped
  | _ => True

/-- What the calls without a command keep. -/
structure SameOrder (s t : Recorder) : Prop where
  init : t.data.init = s.data.init
  startTime : t.data.startTime = s.data.startTime

theorem SameOrder.refl (s : Recorder) : SameOrder s s :=
  ⟨rfl, rfl⟩

theorem SameOrder.trans {s t u : Recorder} (hst : SameOrder s t) (htu : SameOrder t u) :
    SameOrder s u :=
  ⟨htu.init.trans hst.init, htu.startTime.trans hst.startTime⟩

theorem SameOrder.of_data {s t : Recorder} (h : t.data = s.data) : SameOrder s t := by
  constructor
  · rw [h]
  · rw [h]

theorem sameOrder_writeFile (o : FileSystem.Outcome) (buf : List UInt8) (len : UInt32)
    (s : Recorder) : SameOrder s (writeFile o buf len s).2 :=
  ⟨rfl, rfl⟩

theorem sameOrder_recordCloseFile (io : CloseFileIo) (s : Recorder) :
    SameOrder s (recordCloseFile io s) := by
  have hthread : SameOrder s (closeThread io.before s) := .of_data (closeThread_data _ _)
  simp only [recordCloseFile]
  split
  · exact hthread.trans ⟨rfl, rfl⟩
  · split
    · exact hthread.trans ⟨rfl, rfl⟩
    · exact hthread.trans (.of_data (recordCloseThreadRun_data _ _))

theorem sameOrder_bufferFileError (io : BufferIo) (ret : Int) (s : Recorder) :
    SameOrder s (bufferFileError io ret s).2 :=
  (sameOrder_recordCloseFile io.errorCloseFile s).trans ⟨rfl, rfl⟩

theorem sameOrder_bufferOldFile (io : BufferIo) (block : AudioBlock) (split : Split)
    (s : Recorder) : SameOrder s (bufferOldFile io block split s).2 := by
  have hwrite : SameOrder s
      (writeFile io.write block.buf split.splitOffset (closeThread io.beforeWrite s)).2 :=
    (SameOrder.of_data (closeThread_data _ _)).trans (sameOrder_writeFile _ _ _ _)
  simp only [bufferOldFile]
  split
  · exact hwrite
  · split
    · split
      · exact hwrite.trans (.of_data (closeThread_data _ _))
      · exact hwrite.trans ((SameOrder.of_data (closeThread_data _ _)).trans ⟨rfl, rfl⟩)
    · exact hwrite

theorem sameOrder_writeNewFile (io : BufferIo) (block : AudioBlock) (split : Split)
    (s : Recorder) : SameOrder s (writeNewFile io block split s).2 := by
  have hwrite : SameOrder s (writeFile io.newWrite (block.buf.drop split.splitOffset.toNat)
      (block.len - split.splitOffset) (closeThread io.beforeNewWrite s)).2 :=
    (SameOrder.of_data (closeThread_data _ _)).trans (sameOrder_writeFile _ _ _ _)
  simp only [writeNewFile]
  split
  · exact hwrite.trans (sameOrder_bufferFileError _ _ _)
  · exact hwrite.trans ⟨rfl, rfl⟩

theorem sameOrder_bufferNewFile (io : BufferIo) (block : AudioBlock) (split : Split)
    (s : Recorder) : SameOrder s (bufferNewFile io block split s).2 := by
  have hclose : SameOrder s (if split.oldFile then recordCloseFile io.closeFile s else s) := by
    split
    · exact sameOrder_recordCloseFile _ _
    · exact .refl s
  simp only [bufferNewFile]
  generalize (if split.oldFile then recordCloseFile io.closeFile s else s) = t at hclose ⊢
  split
  · exact hclose.trans ⟨rfl, rfl⟩
  · have hready : SameOrder s (closeThread io.beforeOpen (t.setLastSyncTimeMs io.newUptimeMs)) :=
      hclose.trans ((SameOrder.mk rfl rfl : SameOrder t (t.setLastSyncTimeMs io.newUptimeMs)).trans
        (.of_data (closeThread_data _ _)))
    have hopen : SameOrder s (openFile io.wavOpen
        (closeThread io.beforeOpen (t.setLastSyncTimeMs io.newUptimeMs))).2 :=
      hready.trans ⟨rfl, rfl⟩
    split
    · exact hopen.trans (sameOrder_bufferFileError _ _ _)
    · have hindex : SameOrder s (openFile io.wavOpen
          (closeThread io.beforeOpen (t.setLastSyncTimeMs io.newUptimeMs))).2.nextFileIndex :=
        hopen.trans ⟨rfl, rfl⟩
      exact hindex.trans (sameOrder_writeNewFile _ _ _ _)

theorem sameOrder_recordBuffer (io : BufferIo) (block : AudioBlock) (s : Recorder) :
    SameOrder s (recordBuffer io block s).2 := by
  simp only [recordBuffer]
  split
  · exact .refl s
  split
  · exact .refl s
  rename_i split _
  have hled : SameOrder s (if split.newFile then s.setLed .running else s) := by
    split
    · exact ⟨rfl, rfl⟩
    · exact .refl s
  generalize (if split.newFile then s.setLed .running else s) = t at hled ⊢
  have hold : SameOrder s
      (if split.oldFile then bufferOldFile io block split t else (.ok split, t)).2 := by
    split
    · exact hled.trans (sameOrder_bufferOldFile io block split t)
    · exact hled
  generalize (if split.oldFile then bufferOldFile io block split t else (.ok split, t)) = res
    at hold ⊢
  split
  · exact hold.trans (sameOrder_bufferFileError _ _ _)
  · split
    · exact hold.trans (sameOrder_bufferNewFile _ _ _ _)
    · exact hold

/-- The recorder does what the command `last` says. -/
structure Follows (last : Option RecordCall) (s : Recorder) : Prop where
  init : s.data.init = true
  state : s.data.state ≠ .stopped ↔ IsStart last
  startTime : ∀ time, last = some (.start time) → s.data.startTime = time

theorem Follows.of_same {last : Option RecordCall} {s t : Recorder} (h : Follows last s)
    (hsame : SameOrder s t) (hstate : t.data.state = .stopped ↔ s.data.state = .stopped) :
    Follows last t where
  init := hsame.init.trans h.init
  state := (not_congr hstate).trans h.state
  startTime time hlast := hsame.startTime.trans (h.startTime time hlast)

theorem follows_start {last : Option RecordCall} {s : Recorder} (h : Follows last s)
    {audioStart : Int} (hstart : audioStart = 0 ∨ audioStart = -ealready)
    (time : UInt32) : Follows (some (.start time)) (recordStart audioStart time s).2 := by
  have hok : ¬ (audioStart ≠ 0 ∧ audioStart ≠ -ealready) := by
    rintro ⟨hzero, halready⟩
    exact hstart.elim hzero halready
  simp only [recordStart, h.init, Bool.not_true, Bool.false_eq_true, if_false, if_neg hok]
  refine ⟨rfl, iff_of_true ?_ ⟨time, rfl⟩, ?_⟩
  · cases s.data.state <;> simp
  · rintro _ ⟨⟩
    rfl

theorem follows_stop {last : Option RecordCall} {s : Recorder} (h : Follows last s)
    (io : CloseFileIo) : Follows (some .stop) (recordStop io s).2 := by
  have hclose : SameOrder s (closeWhenRecording io s) := by
    simp only [closeWhenRecording]
    split
    · exact .refl s
    · exact .refl s
    · exact sameOrder_recordCloseFile io s
    · exact sameOrder_recordCloseFile io s
  simp only [recordStop, recordStopUnlocked, h.init, Bool.not_true, Bool.false_eq_true, if_false]
  refine ⟨hclose.init.trans h.init, iff_of_false ?_ not_isStart_stop,
    fun _ h => RecordCall.noConfusion (Option.some.inj h)⟩
  exact not_not.mpr rfl

theorem recordBuffer_of_stopped {s : Recorder} (hstate : s.data.state = .stopped) (io : BufferIo)
    (block : AudioBlock) : (recordBuffer io block s).2 = s := by
  simp only [recordBuffer, recordSwitch, hstate]
  split <;> rfl

theorem Follows.of_scan {last : Option RecordCall} {s : Recorder} (h : Follows last s)
    (io : ScanIo) :
    Follows last { s with data := (recordFindNextFileIndex io s.fs.card.names s.data).2 } := by
  obtain ⟨index, hscan⟩ := recordFindNextFileIndex_data io s.fs.card.names s.data
  rw [hscan]
  exact h.of_same ⟨rfl, rfl⟩ Iff.rfl

theorem Follows.of_prefix {last : Option RecordCall} {s : Recorder} (h : Follows last s)
    (io : SetPrefixIo) (namePrefix : List Char) :
    Follows last (recordSetFileNamePrefix io namePrefix s).2 := by
  simp only [recordSetFileNamePrefix]
  split
  · exact h
  split
  · rename_i hlen
    split
    · exact h.of_same ⟨rfl, rfl⟩ Iff.rfl
    · have hsaved : Follows last { s with
          data := { s.data with fileNamePrefix := ⟨namePrefix, hlen⟩ }
          settings := if namePrefix = [] then none else some namePrefix } :=
        h.of_same ⟨rfl, rfl⟩ Iff.rfl
      exact hsaved.of_scan io.scan
  · exact h

theorem follows_step {last : Option RecordCall} {s : Recorder} (h : Follows last s)
    {call : Record.Call} (hobeys : Obeys s call) :
    Follows ((command call).or last) (Record.step s call) := by
  cases call with
  | start audioStart time => exact follows_start h hobeys time
  | stop io => exact follows_stop h io
  | shutdown io => exact hobeys.elim
  | buffer io block =>
      refine h.of_same (sameOrder_recordBuffer io block s) ⟨hobeys, fun hstate => ?_⟩
      rw [Record.step, recordBuffer_of_stopped hstate]
      exact hstate
  | closeThread io =>
      exact h.of_same (.of_data (recordCloseThreadRun_data s io))
        (by rw [Record.step, recordCloseThreadRun_data])
  | setFileNamePrefix io namePrefix => exact h.of_prefix io namePrefix
  | cardInserted io =>
      simp only [Record.step, recordCardInserted, h.init, Bool.not_true, Bool.false_eq_true,
        if_false]
      exact h.of_scan io
  | swapCard card => exact h.of_same ⟨rfl, rfl⟩ Iff.rfl

theorem follows_initial (card : FileSystem.Card) (settings : Option (List Char))
    (io : InitIo) : Follows none (Record.initial card settings io) := by
  obtain ⟨namePrefix, index, hdata⟩ := initial_data card settings io
  constructor
  · rw [hdata]
  · rw [hdata]
    exact iff_of_false (not_not.mpr rfl) fun ⟨_, h⟩ => nomatch h
  · exact nofun

theorem follows_run {s : Recorder} (hs : Follows none s) {calls : List Record.Call}
    (hobeys : Along Record.step Obeys s calls) :
    Follows (calls.filterMap command).getLast? (run Record.step s calls) := by
  induction calls using List.reverseRecOn with
  | nil => exact hs
  | append_singleton calls call ih =>
      obtain ⟨hcalls, hcall, -⟩ := (along_append _ _ _ _ _).mp hobeys
      have hstep := follows_step (ih hcalls) hcall
      rw [run_append, List.filterMap_append]
      cases hcommand : command call with
      | none =>
          rw [List.filterMap_cons_none hcommand, List.filterMap_nil, List.append_nil]
          rwa [hcommand] at hstep
      | some order =>
          rw [List.filterMap_cons_some hcommand, List.filterMap_nil, List.getLast?_concat]
          rwa [hcommand] at hstep

/-- `heard` and `calls` are what the node received and what its recorder was called
with so far. -/
structure Node where
  mgr : MgrState
  recorder : Recorder
  heard : List (UInt32 × Packet)
  calls : List Record.Call

/-- The local time at which a packet is received, and what the environment adds to
the call of the recorder. -/
structure Reception where
  time : UInt32
  audioStart : Int := 0
  closeFile : CloseFileIo := {}

def recordCall (r : Reception) : RecordCall → Record.Call
  | .start time => .start r.audioStart time
  | .stop => .stop r.closeFile

def Node.call (call : Record.Call) (n : Node) : Node :=
  { n with recorder := Record.step n.recorder call, calls := n.calls ++ [call] }

def receive (r : Reception) (packet : Packet) (n : Node) : Node :=
  let n := { n with heard := n.heard ++ [(r.time, packet)] }
  match packet.data with
  | none => n
  | some adv =>
      let (call, mgr) := mgrReceive r.time adv n.mgr
      let n := { n with mgr := mgr }
      match call with
      | none => n
      | some call => n.call (recordCall r call)

/-- A call of the recorder that does not come from the central. -/
abbrev LocalCall := { call : Record.Call // command call = none }

universe u

variable {ι : Type u} [DecidableEq ι]

structure System (ι : Type u) where
  control : Control
  node : ι → Node

/-- The nodes receive a packet when it is sent, or they miss it. -/
inductive Event (ι : Type u) where
  | control (event : CentralControl.Event)
  | transmit (hears : ι → Option Reception)
  | record (i : ι) (call : LocalCall)

def step (T : Nat → UInt32) (s : System ι) : Event ι → System ι
  | .control event => { s with control := CentralControl.step T s.control event }
  | .transmit hears =>
      { control := CentralControl.step T s.control .transmit
        node := fun i =>
          match hears i with
          | none => s.node i
          | some r => receive r s.control.sync.advertised (s.node i) }
  | .record i call => { s with node := Function.update s.node i ((s.node i).call call.val) }

def systemInitial (recorder : ι → Recorder) : System ι where
  control := controlInitial
  node i := ⟨mgrInitial, recorder i, [], []⟩

/-- A node received some of the packets that were sent, and its recorder was called
with what it heard. -/
structure Coherent (sent : List Packet) (recorder : Recorder) (n : Node) : Prop where
  heard : (n.heard.map Prod.snd).Sublist sent
  mgr : ∀ rest, hear mgrInitial (n.heard ++ rest) = hear mgrInitial n.heard ++ hear n.mgr rest
  recorder : n.recorder = run Record.step recorder n.calls
  commands : n.calls.filterMap command = (hear mgrInitial n.heard).reduceOption

theorem coherent_initial (recorder : Recorder) :
    Coherent [] recorder ⟨mgrInitial, recorder, [], []⟩ where
  heard := List.Sublist.refl _
  mgr _ := rfl
  recorder := rfl
  commands := rfl

section

variable {sent : List Packet} {recorder : Recorder} {n : Node}

theorem Coherent.more (h : Coherent sent recorder n) {sent' : List Packet}
    (hsent : sent.Sublist sent') : Coherent sent' recorder n :=
  { h with heard := h.heard.trans hsent }

theorem Coherent.localCall (h : Coherent sent recorder n) {call : Record.Call}
    (hcall : command call = none) : Coherent sent recorder (n.call call) where
  heard := h.heard
  mgr := h.mgr
  recorder := by
    simp only [Node.call, run_append, ← h.recorder]
    rfl
  commands := by
    simp only [Node.call, List.filterMap_append, List.filterMap_cons_none hcall,
      List.filterMap_nil, List.append_nil]
    exact h.commands

theorem command_recordCall (r : Reception) (call : RecordCall) :
    command (recordCall r call) = some call := by
  cases call <;> rfl

theorem hear_receive (r : Reception) (packet : Packet) (m : MgrState) :
    ∃ call m', (∀ rest, hear m ((r.time, packet) :: rest) = call :: hear m' rest) ∧
      ∀ n : Node, n.mgr = m → receive r packet n =
        match call with
        | none => { n with mgr := m', heard := n.heard ++ [(r.time, packet)] }
        | some call =>
            Node.call (recordCall r call)
              { n with mgr := m', heard := n.heard ++ [(r.time, packet)] } := by
  cases hdata : packet.data with
  | none =>
      refine ⟨none, m, fun rest => by simp only [hear, hdata], ?_⟩
      rintro n rfl
      simp only [receive, hdata]
  | some adv =>
      refine ⟨(mgrReceive r.time adv m).1, (mgrReceive r.time adv m).2,
        fun rest => by simp only [hear, hdata], ?_⟩
      rintro n rfl
      simp only [receive, hdata]

theorem Coherent.receive (h : Coherent sent recorder n) (r : Reception) (packet : Packet) :
    Coherent (sent ++ [packet]) recorder (receive r packet n) := by
  obtain ⟨call, m', hhear, hreceive⟩ := hear_receive r packet n.mgr
  have hnode := hreceive n rfl
  have hheard : hear mgrInitial (n.heard ++ [(r.time, packet)]) =
      hear mgrInitial n.heard ++ [call] := by
    rw [h.mgr, hhear]
    rfl
  have hmgr (rest : List (UInt32 × Packet)) :
      hear mgrInitial (n.heard ++ [(r.time, packet)] ++ rest) =
        hear mgrInitial (n.heard ++ [(r.time, packet)]) ++ hear m' rest := by
    rw [hheard, List.append_assoc, h.mgr, List.singleton_append, hhear, List.append_assoc,
      List.singleton_append]
  have hsub : ((n.heard ++ [(r.time, packet)]).map Prod.snd).Sublist (sent ++ [packet]) := by
    rw [List.map_append]
    exact h.heard.append (List.Sublist.refl _)
  rw [hnode]
  cases call with
  | none =>
      refine ⟨hsub, hmgr, h.recorder, ?_⟩
      rw [hheard, List.reduceOption_append]
      simpa using h.commands
  | some call =>
      refine ⟨hsub, hmgr, ?_, ?_⟩
      · simp only [Node.call, run_append, ← h.recorder]
        rfl
      · simp only [Node.call]
        rw [hheard, List.reduceOption_append, List.filterMap_append, h.commands]
        simp [command_recordCall]

end

theorem broadcast_sent (T : Nat → UInt32) (s : Broadcast.State) (event : Broadcast.Event) :
    s.sent.Sublist (Broadcast.step T s event).sent := by
  cases event with
  | transmit => exact List.sublist_append_left _ _
  | ipcRecv =>
      simp only [Broadcast.step]
      split <;> exact List.Sublist.refl _
  | update err =>
      simp only [Broadcast.step]
      split <;> exact List.Sublist.refl _
  | start => exact List.Sublist.refl _
  | stop => exact List.Sublist.refl _

theorem control_sent (T : Nat → UInt32) (s : Control) (event : CentralControl.Event) :
    s.sync.sent.Sublist (CentralControl.step T s event).sync.sent := by
  have hstart : s.sync.sent.Sublist (CentralControl.start T s).sync.sent := by
    simp only [CentralControl.start]
    split
    · exact List.Sublist.refl _
    · exact broadcast_sent T s.sync .start
  have hstop : s.sync.sent.Sublist (CentralControl.stop T s).sync.sent := by
    simp only [CentralControl.stop]
    split
    · exact List.Sublist.refl _
    · exact broadcast_sent T s.sync .stop
  cases event with
  | transmit => exact broadcast_sent T s.sync .transmit
  | ipcRecv => exact broadcast_sent T s.sync .ipcRecv
  | update err => exact broadcast_sent T s.sync (.update err)
  | start => exact hstart
  | stop => exact hstop
  | buttonConfigure ret =>
      simp only [CentralControl.step]
      split <;> exact List.Sublist.refl _
  | release now =>
      simp only [CentralControl.step]
      split <;> exact List.Sublist.refl _
  | handle =>
      simp only [CentralControl.step, CentralControl.buttonReleaseWorkHandler]
      split
      · split
        · rw [CentralControl.toggle_eq]
          split
          · exact hstart
          · split
            · exact hstop
            · exact List.Sublist.refl _
        · exact List.Sublist.refl _
      · exact List.Sublist.refl _
  | _ => exact List.Sublist.refl _

structure Invariant (recorder : ι → Recorder) (s : System ι) : Prop where
  control : CentralControl.Agrees s.control
  node : ∀ i, Coherent s.control.sync.sent (recorder i) (s.node i)

theorem invariant_step (T : Nat → UInt32) {recorder : ι → Recorder} (s : System ι)
    (event : Event ι) (hs : Invariant recorder s) : Invariant recorder (step T s event) := by
  obtain ⟨hcontrol, hnode⟩ := hs
  cases event with
  | control event =>
      exact ⟨agrees_step T s.control event hcontrol,
        fun i => (hnode i).more (control_sent T s.control event)⟩
  | transmit hears =>
      refine ⟨agrees_step T s.control .transmit hcontrol, ?_⟩
      intro i
      simp only [step]
      split
      · exact (hnode i).more (List.sublist_append_left _ _)
      · exact (hnode i).receive _ _
  | record i call =>
      refine ⟨hcontrol, ?_⟩
      intro j
      simp only [step]
      rcases Classical.em (j = i) with rfl | hne
      · rw [Function.update_self]
        exact (hnode j).localCall call.property
      · rw [Function.update_of_ne hne]
        exact hnode j

/-- The node has heard a packet with the last command that the central accepted. -/
def HeardLast (sync : Broadcast.State) (n : Node) : Prop :=
  ∃ r ∈ n.heard, ∃ k, r.2.command.content = some k ∧ k + 1 = sync.accepted.length

theorem Coherent.last_command {sync : Broadcast.State} {recorder : Recorder} {n : Node}
    (h : Coherent sync.sent recorder n) (htracks : Tracks sync)
    (hshort : sync.command.version < 65536)
    (hlast : HeardLast sync n) :
    (n.calls.filterMap command).getLast? = sync.accepted.getLast? := by
  obtain ⟨hordered, hhear⟩ := hear_eq_of_tracks htracks hshort h.heard
  obtain ⟨r, hr, k, hcontent, hk⟩ := hlast
  have hmem {a : Sample Nat} (ha : a ∈ n.heard.map fun r => r.2.command) {j : Nat}
      (hj : j ∈ a.content) : j < sync.accepted.length := by
    obtain ⟨b, hb, rfl⟩ := List.mem_map.mp ha
    have hsent : b.2 ∈ sync.sent := h.heard.subset (List.mem_map_of_mem hb)
    have hhistory : b.2.command ∈ sync.command :: sync.advertised.command :: history sync := by
      simp only [history, List.mem_cons]
      exact Or.inr (Or.inr (Or.inr (List.mem_map_of_mem hsent)))
    exact Nat.lt_of_lt_of_le (htracks.content_lt _ hhistory j hj) htracks.taken_le
  have hacted : (acted noCommand (n.heard.map fun r => r.2.command)).reduceOption.getLast? =
      some k := by
    refine acted_getLast? hordered nofun ⟨r.2.command, List.mem_map_of_mem hr, hcontent⟩ ?_
    intro a ha j hj
    have hlt := hmem ha hj
    omega
  obtain ⟨front, hfront⟩ := List.getLast?_eq_some_iff.mp hacted
  have hget : sync.accepted[k]? = sync.accepted.getLast? := by
    rw [List.getLast?_eq_getElem?, ← hk, Nat.add_sub_cancel]
  have hlt : k < sync.accepted.length := Nat.lt_of_succ_le (Nat.le_of_eq hk)
  have hsome : sync.accepted[k]? = some sync.accepted[k] := List.getElem?_eq_getElem hlt
  rw [h.commands, hhear, reduceOption_map_named, hfront, List.filterMap_append,
    List.filterMap_cons_some hsome, List.filterMap_nil, List.getLast?_concat, ← hget, hsome]

/-- The system after some events; the recorders start as `record_init` leaves them. -/
def systemRun (T : Nat → UInt32) (card : ι → FileSystem.Card)
    (settings : ι → Option (List Char)) (io : ι → InitIo) (events : List (Event ι)) :
    System ι :=
  run (step T) (systemInitial fun i => Record.initial (card i) (settings i) (io i)) events

/-- A node that has heard a packet with the last command, and whose recorder takes
its orders and is not stopped by an error, records exactly when the central is in
its recording state, with the start time of that command. -/
theorem recorders_agree (T : Nat → UInt32) (card : ι → FileSystem.Card)
    (settings : ι → Option (List Char)) (io : ι → InitIo) (events : List (Event ι)) (i : ι)
    (hshort : (systemRun T card settings io events).control.sync.command.version < 65536)
    (hlast : HeardLast (systemRun T card settings io events).control.sync
      ((systemRun T card settings io events).node i))
    (hobeys : Along Record.step Obeys (Record.initial (card i) (settings i) (io i))
      ((systemRun T card settings io events).node i).calls) :
    let s := systemRun T card settings io events
    ((s.node i).recorder.data.state ≠ .stopped ↔ s.control.central.state = .recording) ∧
      ∀ time, s.control.sync.accepted.getLast? = some (.start time) →
        (s.node i).recorder.data.startTime = time := by
  have hinvariant : Invariant (fun i => Record.initial (card i) (settings i) (io i))
      (systemRun T card settings io events) :=
    invariant_run_of_step (invariant_step T)
      ⟨CentralControl.agrees_initial, fun i => coherent_initial _⟩ events
  generalize systemRun T card settings io events = s at hinvariant hshort hlast hobeys ⊢
  have hnode := hinvariant.node i
  have hfollows := follows_run (follows_initial (card i) (settings i) (io i)) hobeys
  rw [← hnode.recorder, hnode.last_command hinvariant.control.tracks hshort hlast] at hfollows
  exact ⟨hfollows.state.trans hinvariant.control.state.symm, hfollows.startTime⟩

/-- Two nodes, of which the second misses the first packet with the start. -/
def startHeard : List (Event Bool) :=
  [.control .start, .transmit fun _ => none, .control .ipcRecv, .control (.update 0),
    .transmit fun i => if i then none else some ⟨7, 0, {}⟩, .transmit fun _ => some ⟨9, 0, {}⟩]

theorem second_node_records :
    let s := systemRun (fun _ => 0) (fun _ : Bool => FileSystem.emptyCard) (fun _ => none)
      (fun _ => {}) startHeard
    ((s.node true).recorder.data.state ≠ .stopped ↔ s.control.central.state = .recording) ∧
      ∀ time, s.control.sync.accepted.getLast? = some (.start time) →
        (s.node true).recorder.data.startTime = time :=
  recorders_agree (fun _ => 0) (fun _ => FileSystem.emptyCard) (fun _ => none) (fun _ => {})
    startHeard true (by decide) ⟨_, List.mem_singleton.mpr rfl, 0, rfl, rfl⟩ ⟨Or.inl rfl, trivial⟩

end ZeusLe.RecordingAgreement
