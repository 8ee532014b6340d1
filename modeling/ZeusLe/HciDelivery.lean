import Mathlib.Data.List.Perm.Basic
import ZeusLe.HciIpc
import ZeusLe.Library.Log

/-!
What arrives on the two ways of `hci_ipc.c`: every packet and every message once,
in their order, and no buffer is lost.
-/

namespace ZeusLe.HciDelivery

open ZeusLe.HciIpc
open ZeusLe.Library.Log
open ZeusLe.Library.Run

def decodeAs (type : BtBufType) (hdrLen : Nat) (len : List UInt8 → Nat) (data : List UInt8) :
    List NetBuf :=
  if data.length = hdrLen + len (data.take hdrLen) then [⟨type, data⟩] else []

/-- The packet in a message, if it has one. -/
def packetBuf (pktIndicator : UInt8) (data : List UInt8) : List NetBuf :=
  if pktIndicator = hciIpcCmd then decodeAs .cmd 3 cmdLen data
  else if pktIndicator = hciIpcAcl then decodeAs .aclOut 4 aclLen data
  else if pktIndicator = hciIpcIso then decodeAs .isoOut 4 isoLen data
  else []

def hostBuf : Event → List NetBuf
  | .recv pktIndicator data => packetBuf pktIndicator data
  | _ => []

theorem mem_decodeAs {pktIndicator : UInt8} {type : BtBufType} {hdrLen : Nat}
    {len : List UInt8 → Nat} (h : Decodes pktIndicator type hdrLen len) (data : List UInt8)
    (buf : NetBuf) :
    buf ∈ decodeAs type hdrLen len data ↔
      ∃ p : Packet, p.indicator = pktIndicator ∧ data = p.bytes ∧ buf = ⟨p.type, p.bytes⟩ := by
  rw [decodeAs]
  split
  · rename_i hlen
    rw [List.mem_singleton]
    constructor
    · rintro rfl
      obtain ⟨p, hp, rfl, rfl⟩ := h.exists_packet data hlen
      exact ⟨p, hp, rfl, rfl⟩
    · rintro ⟨p, hp, rfl, rfl⟩
      rw [(h.of_bytes p hp).1]
  · rename_i hlen
    constructor
    · intro hbuf
      cases hbuf
    · rintro ⟨p, hp, rfl, rfl⟩
      exact absurd (h.of_bytes p hp).2 hlen

theorem mem_packetBuf (pktIndicator : UInt8) (data : List UInt8) (buf : NetBuf) :
    buf ∈ packetBuf pktIndicator data ↔
      ∃ p : Packet, p.indicator = pktIndicator ∧ data = p.bytes ∧ buf = ⟨p.type, p.bytes⟩ := by
  rw [packetBuf]
  split
  · rename_i hcmd
    exact hcmd ▸ mem_decodeAs decodes_cmd data buf
  split
  · rename_i hacl
    exact hacl ▸ mem_decodeAs decodes_acl data buf
  split
  · rename_i hiso
    exact hiso ▸ mem_decodeAs decodes_iso data buf
  · rename_i hcmd hacl hiso
    constructor
    · intro hbuf
      cases hbuf
    · rintro ⟨p, rfl, rfl, rfl⟩
      rcases packet_indicator p with h | h | h
      · exact absurd h hcmd
      · exact absurd h hacl
      · exact absurd h hiso

/-- What the controller was given, and what still waits for it. -/
def toController (s : Ipc) : List NetBuf :=
  s.given ++ s.txQueue

/-- A packet finds a buffer, and the controller takes what it is given. -/
def Lossless (pools : Pools) (s : Ipc) : Event → Prop
  | .recv pktIndicator data => ∀ p : Packet, p.indicator = pktIndicator → data = p.bytes →
      Accepts pools s p
  | .txThread err => s.txQueue = [] ∨ err = 0
  | _ => True

theorem packetBuf_bytes (p : Packet) : packetBuf p.indicator p.bytes = [⟨p.type, p.bytes⟩] := by
  cases p with
  | cmd opcode params h =>
      change packetBuf hciIpcCmd _ = _
      rw [packetBuf, if_pos rfl, decodeAs, if_pos (decodes_cmd.of_bytes _ rfl).2]
      rfl
  | acl handle payload h =>
      change packetBuf hciIpcAcl _ = _
      rw [packetBuf, if_neg (by decide), if_pos rfl, decodeAs,
        if_pos (decodes_acl.of_bytes _ rfl).2]
      rfl
  | iso handle flags payload h =>
      change packetBuf hciIpcIso _ = _
      rw [packetBuf, if_neg (by decide), if_neg (by decide), if_pos rfl, decodeAs,
        if_pos (decodes_iso.of_bytes _ rfl).2]
      rfl

theorem packetBuf_eq_nil {pktIndicator : UInt8} {data : List UInt8}
    (h : ∀ p : Packet, p.indicator = pktIndicator → data ≠ p.bytes) :
    packetBuf pktIndicator data = [] := by
  apply List.eq_nil_iff_forall_not_mem.mpr
  intro buf hbuf
  obtain ⟨p, hp, hdata, -⟩ := (mem_packetBuf pktIndicator data buf).mp hbuf
  exact h p hp hdata

theorem toController_takePacket (p : Packet) (s : Ipc) :
    toController (takePacket p s) = toController s ++ [⟨p.type, p.bytes⟩] :=
  (List.append_assoc _ _ _).symm

theorem toController_recv (pools : Pools) (pktIndicator : UInt8) (data : List UInt8) (s : Ipc) :
    (toController (hciIpcRecv pools pktIndicator data s)).Sublist
        (toController s ++ packetBuf pktIndicator data) ∧
      (toController (hciIpcRecv pools pktIndicator data s) =
          toController s ++ packetBuf pktIndicator data ↔
        Lossless pools s (.recv pktIndicator data)) := by
  rcases hciIpcRecv_takes pools pktIndicator data s with ⟨p, rfl, rfl, haccepts, hs'⟩ | ⟨hs', hnot⟩
  · rw [hs', packetBuf_bytes, toController_takePacket]
    refine ⟨List.Sublist.refl _, iff_of_true rfl ?_⟩
    intro q hq hbytes
    exact Packet.eq_of_message hq hbytes.symm ▸ haccepts
  · rw [hs']
    refine ⟨List.sublist_append_left _ _, ?_⟩
    constructor
    · intro h p hp hdata
      subst hp hdata
      rw [packetBuf_bytes] at h
      simpa using congrArg List.length h
    · intro h
      have hnone := packetBuf_eq_nil fun p hp hdata => hnot p hp hdata (h p hp hdata)
      rw [hnone, List.append_nil]

theorem txThreadRound_cases (err : Int) (s : Ipc) :
    (s.txQueue = [] ∧ txThreadRound err s = s) ∨
      ∃ buf txQueue, s.txQueue = buf :: txQueue ∧
        ((err = 0 ∧ txThreadRound err s =
            { s with
              txQueue := txQueue
              controller := s.controller ++ [buf]
              given := s.given ++ [buf] }) ∨
          (err ≠ 0 ∧ txThreadRound err s = netBufUnref buf { s with txQueue := txQueue })) := by
  cases hqueue : s.txQueue with
  | nil => exact Or.inl ⟨rfl, by simp only [txThreadRound, hqueue]⟩
  | cons buf txQueue =>
      refine Or.inr ⟨buf, txQueue, rfl, ?_⟩
      rcases Classical.em (err = 0) with herr | herr
      · exact Or.inl ⟨herr, by simp only [txThreadRound, hqueue, if_pos herr]⟩
      · exact Or.inr ⟨herr, by simp only [txThreadRound, hqueue, if_neg herr]⟩

theorem toController_txThread (err : Int) (s : Ipc) :
    (toController (txThreadRound err s)).Sublist (toController s) ∧
      (toController (txThreadRound err s) = toController s ↔ s.txQueue = [] ∨ err = 0) := by
  rcases txThreadRound_cases err s with
    ⟨hqueue, hs'⟩ | ⟨buf, txQueue, hqueue, ⟨herr, hs'⟩ | ⟨herr, hs'⟩⟩
  · rw [hs']
    exact ⟨List.Sublist.refl _, iff_of_true rfl (Or.inl hqueue)⟩
  · have heq : toController (txThreadRound err s) = toController s := by
      rw [hs', toController, toController, hqueue, List.append_assoc, List.singleton_append]
    rw [heq]
    exact ⟨List.Sublist.refl _, iff_of_true rfl (Or.inr herr)⟩
  · have hsub : (txQueue).Sublist (buf :: txQueue) := List.sublist_cons_self buf txQueue
    rw [hs', toController, toController, hqueue]
    refine ⟨hsub.append_left _, iff_of_false ?_ ?_⟩
    · intro h
      exact List.ne_cons_self (List.append_cancel_left h)
    · rintro (h | h)
      · cases h
      · exact herr h

theorem toController_done (pools : Pools) (index : Nat) (s : Ipc) :
    toController (step pools s (.done index)) = toController s := by
  simp only [step]
  split
  · rfl
  · rfl

/-- What a step of `rx_thread` does, without what it is about. -/
inductive RxStep (ret : Int) (s : Ipc) : Ipc → Prop where
  | unbound (h : s.rxThread = .waitBound) (hbound : s.bound = false) : RxStep ret s s
  | bound (h : s.rxThread = .waitBound) (hbound : s.bound = true) :
      RxStep ret s { s with rxThread := .waitBuf }
  | empty (h : s.rxThread = .waitBuf) (hqueue : s.rxQueue = []) : RxStep ret s s
  | start {buf : NetBuf} {rxQueue : List NetBuf} {pktIndicator : UInt8}
      (h : s.rxThread = .waitBuf) (hqueue : s.rxQueue = buf :: rxQueue)
      (hindicator : indicator buf.type = some pktIndicator) :
      RxStep ret s
        { s with
          rxQueue := rxQueue
          rxThread := .sending { buf with data := pktIndicator :: buf.data } 0 }
  | unknown {buf : NetBuf} {rxQueue : List NetBuf} (h : s.rxThread = .waitBuf)
      (hqueue : s.rxQueue = buf :: rxQueue) (hindicator : indicator buf.type = none) :
      RxStep ret s { s with rxQueue := rxQueue, released := s.released + 1 }
  | retry {buf : NetBuf} {retries : UInt8} (retries' : UInt8)
      (h : s.rxThread = .sending buf retries) (hret : ret < 0) :
      RxStep ret s { s with rxThread := .sending buf retries' }
  | sent {buf : NetBuf} {retries : UInt8} (h : s.rxThread = .sending buf retries)
      (hret : 0 ≤ ret) :
      RxStep ret s
        { s with
          rxThread := .waitBuf
          sent := s.sent ++ [buf.data]
          released := s.released + 1 }

theorem rxThreadStep_cases (ret : Int) (s : Ipc) : RxStep ret s (rxThreadStep ret s) := by
  cases h : s.rxThread with
  | waitBound =>
      simp only [rxThreadStep, h]
      split
      · rename_i hbound
        exact .bound h hbound
      · rename_i hbound
        exact .unbound h (Bool.not_eq_true _ ▸ hbound)
  | waitBuf =>
      simp only [rxThreadStep, h]
      split
      · rename_i hqueue
        exact .empty h hqueue
      · rename_i buf rxQueue hqueue
        simp only [startSend]
        split
        · rename_i pktIndicator hindicator
          exact .start h hqueue hindicator
        · rename_i hindicator
          have hstep : RxStep ret s _ := .unknown h hqueue hindicator
          rw [← h]
          exact hstep
  | sending buf retries =>
      simp only [rxThreadStep, h, sendAttempt]
      split
      · rename_i hret
        exact .retry _ h hret
      · rename_i hret
        exact .sent h (Int.not_lt.mp hret)

theorem toController_rxThreadStep (ret : Int) (s : Ipc) :
    toController (rxThreadStep ret s) = toController s := by
  have hstep := rxThreadStep_cases ret s
  generalize rxThreadStep ret s = s' at hstep ⊢
  cases hstep <;> rfl

theorem toController_step (pools : Pools) (s : Ipc) (event : Event) :
    (toController (step pools s event)).Sublist (toController s ++ hostBuf event) ∧
      (toController (step pools s event) = toController s ++ hostBuf event ↔
        Lossless pools s event) := by
  have hkeeps {s' : Ipc} (h : toController s' = toController s) :
      (toController s').Sublist (toController s ++ []) ∧
        (toController s' = toController s ++ [] ↔ True) := by
    rw [h, List.append_nil]
    exact ⟨List.Sublist.refl _, iff_of_true rfl trivial⟩
  cases event with
  | recv pktIndicator data => exact toController_recv pools pktIndicator data s
  | txThread err =>
      have hnone : hostBuf (.txThread err) = [] := rfl
      rw [hnone, List.append_nil]
      exact toController_txThread err s
  | bound => exact hkeeps rfl
  | rxThread ret => exact hkeeps (toController_rxThreadStep ret s)
  | put buf => exact hkeeps rfl
  | done index => exact hkeeps (toController_done pools index s)

/-- The buffers of a type are free, in the queue or with the controller. -/
def Conserved (pools : Pools) (s : Ipc) : Prop :=
  ∀ type, s.free type + (s.txQueue ++ s.controller).countP (·.type = type) = pools.count type

section

variable {pools : Pools} {s s' : Ipc} {buf : NetBuf}

theorem conserved_of_perm (hs : Conserved pools s) (hfree : s'.free = s.free)
    (hperm : (s'.txQueue ++ s'.controller).Perm (s.txQueue ++ s.controller)) :
    Conserved pools s' := by
  intro type
  rw [hfree, hperm.countP_eq]
  exact hs type

theorem conserved_of_take (hs : Conserved pools s) (buf : NetBuf) (hpos : 0 < s.free buf.type)
    (hfree : s'.free = Function.update s.free buf.type (s.free buf.type - 1))
    (hperm : (s'.txQueue ++ s'.controller).Perm (buf :: (s.txQueue ++ s.controller))) :
    Conserved pools s' := by
  intro type
  have htype := hs type
  rw [hfree, hperm.countP_eq, List.countP_cons]
  rcases Classical.em (buf.type = type) with rfl | hne
  · rw [Function.update_self, if_pos (decide_eq_true rfl)]
    omega
  · rw [Function.update_of_ne (Ne.symm hne), if_neg (by simpa using hne)]
    exact htype

theorem conserved_unref (hs : Conserved pools s) (hfree : s'.free = s.free)
    (hperm : (buf :: (s'.txQueue ++ s'.controller)).Perm (s.txQueue ++ s.controller)) :
    Conserved pools (netBufUnref buf s') := by
  intro type
  have htype := hs type
  rw [← hperm.countP_eq, List.countP_cons] at htype
  simp only [netBufUnref, hfree]
  rcases Classical.em (buf.type = type) with rfl | hne
  · rw [if_pos (decide_eq_true rfl)] at htype
    rw [Function.update_self]
    omega
  · rw [if_neg (by simpa using hne)] at htype
    rw [Function.update_of_ne (Ne.symm hne)]
    exact htype

end

theorem conserved_step (pools : Pools) (s : Ipc) (event : Event) (hs : Conserved pools s) :
    Conserved pools (step pools s event) := by
  cases event with
  | recv pktIndicator data =>
      rcases hciIpcRecv_takes pools pktIndicator data s with ⟨p, -, -, haccepts, hs'⟩ | ⟨hs', -⟩
      · simp only [step, hs']
        refine conserved_of_take hs ⟨p.type, p.bytes⟩ haccepts.1 rfl ?_
        simp only [takePacket, List.append_assoc]
        exact List.perm_middle
      · simp only [step, hs']
        exact hs
  | txThread err =>
      simp only [step]
      rcases txThreadRound_cases err s with
        ⟨-, hs'⟩ | ⟨buf, txQueue, hqueue, ⟨-, hs'⟩ | ⟨-, hs'⟩⟩
      · rw [hs']
        exact hs
      · rw [hs']
        refine conserved_of_perm hs ?_ ?_
        · rfl
        · rw [hqueue, ← List.append_assoc]
          exact List.perm_append_singleton _ _
      · rw [hs']
        refine conserved_unref hs ?_ ?_
        · rfl
        · rw [hqueue]
          exact List.Perm.refl _
  | bound => exact hs
  | rxThread ret =>
      have hstep := rxThreadStep_cases ret s
      simp only [step]
      generalize rxThreadStep ret s = s' at hstep ⊢
      cases hstep <;> exact hs
  | put buf => exact hs
  | done index =>
      simp only [step]
      split
      · rename_i buf hbuf
        obtain ⟨hindex, rfl⟩ := List.getElem?_eq_some_iff.mp hbuf
        refine conserved_unref hs ?_ ?_
        · rfl
        · exact List.perm_middle.symm.trans
            ((List.getElem_cons_eraseIdx_perm hindex).append_left _)
      · exact hs

/-- The controller gets the packets of the host in their order, and nothing else;
all of them exactly when no pool is empty at a packet, each packet has the room,
and the controller refuses none. No buffer is lost. -/
theorem controller_gets_packets (pools : Pools) (events : List Event) :
    (toController (run (step pools) (initial pools) events)).Sublist (events.flatMap hostBuf) ∧
      (toController (run (step pools) (initial pools) events) = events.flatMap hostBuf ↔
        Along (step pools) (Lossless pools) (initial pools) events) ∧
      Conserved pools (run (step pools) (initial pools) events) := by
  have hsub (s : Ipc) (event : Event) := (toController_step pools s event).1
  have hiff := run_eq_iff hsub (initial pools) events
  refine ⟨run_sublist hsub (initial pools) events, hiff.trans ?_, ?_⟩
  · exact along_iff_of_forall (fun s event => (toController_step pools s event).2) _ _
  · exact invariant_run_of_step (conserved_step pools) (fun type => rfl) events

/-- The message for a buffer of the controller; there is none for the types that
the host does not know. -/
def hostMessage (buf : NetBuf) : List (List UInt8) :=
  match indicator buf.type with
  | some pktIndicator => [pktIndicator :: buf.data]
  | none => []

def inThread : RxThread → List (List UInt8)
  | .sending buf _ => [buf.data]
  | _ => []

/-- What the host was sent, and what still waits for that. -/
def toHost (s : Ipc) : List (List UInt8) :=
  s.sent ++ inThread s.rxThread ++ s.rxQueue.flatMap hostMessage

def controllerMessage : Event → List (List UInt8)
  | .put buf => hostMessage buf
  | _ => []

theorem toHost_rxThreadStep (ret : Int) (s : Ipc) : toHost (rxThreadStep ret s) = toHost s := by
  have hstep := rxThreadStep_cases ret s
  generalize rxThreadStep ret s = s' at hstep ⊢
  cases hstep with
  | unbound => rfl
  | bound h => simp only [toHost, h, inThread]
  | empty => rfl
  | start h hqueue hindicator =>
      simp only [toHost, h, hqueue, inThread, List.flatMap_cons, hostMessage, hindicator,
        List.append_assoc, List.nil_append]
  | unknown h hqueue hindicator =>
      simp only [toHost, h, hqueue, List.flatMap_cons, hostMessage, hindicator, List.nil_append]
  | retry _ h => simp only [toHost, h, inThread]
  | sent h => simp only [toHost, h, inThread, List.append_nil]

/-- The way to the controller does not touch this side. -/
structure SameHostSide (s s' : Ipc) : Prop where
  bound : s'.bound = s.bound
  rxQueue : s'.rxQueue = s.rxQueue
  rxThread : s'.rxThread = s.rxThread
  sent : s'.sent = s.sent
  released : s'.released = s.released

theorem sameHostSide_recv (pools : Pools) (pktIndicator : UInt8) (data : List UInt8) (s : Ipc) :
    SameHostSide s (hciIpcRecv pools pktIndicator data s) := by
  rcases hciIpcRecv_takes pools pktIndicator data s with ⟨p, -, -, -, hs'⟩ | ⟨hs', -⟩
  · rw [hs']
    exact ⟨rfl, rfl, rfl, rfl, rfl⟩
  · rw [hs']
    exact ⟨rfl, rfl, rfl, rfl, rfl⟩

theorem sameHostSide_txThreadRound (err : Int) (s : Ipc) :
    SameHostSide s (txThreadRound err s) := by
  rcases txThreadRound_cases err s with ⟨-, hs'⟩ | ⟨_, _, -, ⟨-, hs'⟩ | ⟨-, hs'⟩⟩
  · rw [hs']
    exact ⟨rfl, rfl, rfl, rfl, rfl⟩
  · rw [hs']
    exact ⟨rfl, rfl, rfl, rfl, rfl⟩
  · rw [hs']
    exact ⟨rfl, rfl, rfl, rfl, rfl⟩

theorem sameHostSide_done (pools : Pools) (index : Nat) (s : Ipc) :
    SameHostSide s (step pools s (.done index)) := by
  rw [step]
  split
  · exact ⟨rfl, rfl, rfl, rfl, rfl⟩
  · exact ⟨rfl, rfl, rfl, rfl, rfl⟩

theorem SameHostSide.toHost {s s' : Ipc} (h : SameHostSide s s') :
    HciDelivery.toHost s' = HciDelivery.toHost s ++ [] := by
  rw [HciDelivery.toHost, h.sent, h.rxThread, h.rxQueue, List.append_nil]
  rfl

theorem toHost_step (pools : Pools) (s : Ipc) (event : Event) :
    toHost (step pools s event) = toHost s ++ controllerMessage event := by
  cases event with
  | recv pktIndicator data => exact (sameHostSide_recv pools pktIndicator data s).toHost
  | txThread err => exact (sameHostSide_txThreadRound err s).toHost
  | bound => exact (List.append_nil _).symm
  | rxThread ret => exact (toHost_rxThreadStep ret s).trans (List.append_nil _).symm
  | put buf =>
      simp only [step, toHost, controllerMessage, List.flatMap_append, List.flatMap_singleton,
        List.append_assoc]
  | done index => exact (sameHostSide_done pools index s).toHost

/-- The messages `msgs` were sent, but for those of the thread and of the first
`k` buffers of the queue. -/
structure Due (msgs : List (List UInt8)) (k : Nat) (s : Ipc) : Prop where
  bound : s.bound = true
  le : k ≤ s.rxQueue.length
  eq : msgs = s.sent ++ inThread s.rxThread ++ (s.rxQueue.take k).flatMap hostMessage

/-- How many rounds it takes at most until these are sent as well. -/
def rounds (k : Nat) (s : Ipc) : Nat :=
  match s.rxThread with
  | .waitBound => 2 * k + 1
  | .waitBuf => 2 * k
  | .sending .. => 2 * k + 1

/-- A round in which a send does not fail. -/
def isRound : Event → Bool
  | .rxThread ret => decide (0 ≤ ret)
  | _ => false

theorem due_rxThreadStep {msgs : List (List UInt8)} {k : Nat} {s : Ipc} (hdue : Due msgs k s)
    (ret : Int) :
    msgs = s.sent ∨ ∃ k', Due msgs k' (rxThreadStep ret s) ∧
      rounds k' (rxThreadStep ret s) ≤ rounds k s ∧
      (0 ≤ ret → rounds k' (rxThreadStep ret s) < rounds k s) := by
  obtain ⟨hbound, hle, heq⟩ := hdue
  have hstep := rxThreadStep_cases ret s
  generalize rxThreadStep ret s = s' at hstep ⊢
  cases hstep with
  | unbound h hunbound => exact absurd hunbound (by rw [hbound]; decide)
  | bound h =>
      right
      refine ⟨k, ⟨hbound, hle, by simpa only [h, inThread] using heq⟩, ?_⟩
      simp only [rounds, h]
      omega
  | empty h hqueue =>
      left
      simpa [h, hqueue, inThread] using heq
  | start h hqueue hindicator =>
      cases k with
      | zero =>
          left
          simpa [h, inThread] using heq
      | succ k =>
          right
          refine ⟨k, ⟨hbound, ?_, ?_⟩, ?_⟩
          · rw [hqueue] at hle
            exact Nat.le_of_succ_le_succ hle
          · simpa [h, hqueue, inThread, hostMessage, hindicator] using heq
          · simp only [rounds, h]
            omega
  | unknown h hqueue hindicator =>
      cases k with
      | zero =>
          left
          simpa [h, inThread] using heq
      | succ k =>
          right
          refine ⟨k, ⟨hbound, ?_, ?_⟩, ?_⟩
          · rw [hqueue] at hle
            exact Nat.le_of_succ_le_succ hle
          · simpa [h, hqueue, inThread, hostMessage, hindicator] using heq
          · simp only [rounds, h]
            omega
  | retry _ h hret =>
      right
      refine ⟨k, ⟨hbound, hle, by simpa only [h, inThread] using heq⟩, ?_⟩
      simp only [rounds, h]
      omega
  | sent h hret =>
      right
      refine ⟨k, ⟨hbound, hle, by simpa [h, inThread] using heq⟩, ?_⟩
      simp only [rounds, h]
      omega

theorem Due.of_same {msgs : List (List UInt8)} {k : Nat} {s s' : Ipc} (hdue : Due msgs k s)
    (h : SameHostSide s s') : Due msgs k s' ∧ rounds k s' = rounds k s := by
  obtain ⟨hbound, hle, heq⟩ := hdue
  refine ⟨⟨h.bound.trans hbound, h.rxQueue ▸ hle, ?_⟩, ?_⟩
  · rw [h.sent, h.rxThread, h.rxQueue]
    exact heq
  · rw [rounds, h.rxThread]
    rfl

theorem due_step {msgs : List (List UInt8)} {k : Nat} {s : Ipc} (hdue : Due msgs k s)
    (pools : Pools) {event : Event} (hround : ∀ ret, event ≠ .rxThread ret) :
    Due msgs k (step pools s event) ∧ rounds k (step pools s event) = rounds k s := by
  cases event with
  | recv pktIndicator data => exact hdue.of_same (sameHostSide_recv pools pktIndicator data s)
  | txThread err => exact hdue.of_same (sameHostSide_txThreadRound err s)
  | bound => exact ⟨⟨rfl, hdue.le, hdue.eq⟩, rfl⟩
  | rxThread ret => exact absurd rfl (hround ret)
  | put buf =>
      refine ⟨⟨hdue.bound, ?_, ?_⟩, rfl⟩
      · simp only [step, List.length_append]
        exact Nat.le_add_right_of_le hdue.le
      · simp only [step]
        rw [List.take_append_of_le_length hdue.le]
        exact hdue.eq
  | done index => exact hdue.of_same (sameHostSide_done pools index s)

theorem SameHostSide.sent_isPrefix {s s' : Ipc} (h : SameHostSide s s') : s.sent <+: s'.sent := by
  simp only [h.sent, List.prefix_rfl]

theorem sent_step (pools : Pools) (s : Ipc) (event : Event) :
    s.sent <+: (step pools s event).sent := by
  cases event with
  | recv pktIndicator data =>
      exact (sameHostSide_recv pools pktIndicator data s).sent_isPrefix
  | txThread err => exact (sameHostSide_txThreadRound err s).sent_isPrefix
  | bound => exact List.prefix_refl _
  | rxThread ret =>
      have hstep := rxThreadStep_cases ret s
      simp only [step]
      generalize rxThreadStep ret s = s' at hstep ⊢
      cases hstep with
      | sent => exact List.prefix_append _ _
      | _ => exact List.prefix_refl _
  | put buf => exact List.prefix_refl _
  | done index => exact (sameHostSide_done pools index s).sent_isPrefix

theorem sent_run (pools : Pools) (s : Ipc) (events : List Event) :
    s.sent <+: (run (step pools) s events).sent :=
  invariant_run_of_step (P := fun s' => s.sent <+: s'.sent)
    (fun s' event h => h.trans (sent_step pools s' event)) (List.prefix_refl _) events

theorem sent_of_rounds {msgs : List (List UInt8)} {k : Nat} {s : Ipc} (hdue : Due msgs k s)
    (pools : Pools) {more : List Event} (hmore : rounds k s ≤ more.countP isRound) :
    msgs <+: (run (step pools) s more).sent := by
  induction more generalizing k s with
  | nil =>
      have hdone : rounds k s = 0 := Nat.le_zero.mp hmore
      have heq := hdue.eq
      cases h : s.rxThread with
      | waitBuf =>
          simp only [rounds, h] at hdone
          obtain rfl : k = 0 := by omega
          simp only [h, inThread, List.take_zero, List.flatMap_nil, List.append_nil] at heq
          simp only [run_nil, heq, List.prefix_rfl]
      | waitBound => simp only [rounds, h, Nat.add_one_ne_zero] at hdone
      | sending => simp only [rounds, h, Nat.add_one_ne_zero] at hdone
  | cons event more ih =>
      rw [List.countP_cons] at hmore
      rcases Classical.em (∃ ret, event = .rxThread ret) with ⟨ret, rfl⟩ | hround
      · rcases due_rxThreadStep hdue ret with rfl | ⟨k', hdue', hle, hlt⟩
        · exact sent_run pools s _
        · apply ih hdue'
          simp only [isRound, decide_eq_true_eq] at hmore
          split at hmore
          · rename_i hret
            have := hlt hret
            omega
          · omega
      · obtain ⟨hdue', hrounds⟩ := due_step hdue pools fun ret h => hround ⟨ret, h⟩
        apply ih hdue'
        have hnot : isRound event = false := by
          cases event with
          | rxThread ret => exact absurd ⟨ret, rfl⟩ hround
          | _ => rfl
        rw [hrounds]
        simpa [hnot] using hmore

theorem unbound_step (pools : Pools) (s : Ipc) (event : Event)
    (hs : s.bound = false → s.rxThread = .waitBound ∧ s.sent = []) :
    (step pools s event).bound = false →
      (step pools s event).rxThread = .waitBound ∧ (step pools s event).sent = [] := by
  cases event with
  | recv pktIndicator data =>
      obtain ⟨hbound, -, hrxThread, hsent, -⟩ := sameHostSide_recv pools pktIndicator data s
      simp only [step, hbound, hrxThread, hsent]
      exact hs
  | txThread err =>
      obtain ⟨hbound, -, hrxThread, hsent, -⟩ := sameHostSide_txThreadRound err s
      simp only [step, hbound, hrxThread, hsent]
      exact hs
  | bound =>
      intro hbound
      cases hbound
  | rxThread ret =>
      have hstep := rxThreadStep_cases ret s
      simp only [step]
      generalize rxThreadStep ret s = s' at hstep ⊢
      intro hbound
      cases hstep with
      | unbound => exact hs hbound
      | bound _ h => exact absurd hbound (by rw [h]; decide)
      | empty => exact hs hbound
      | start h => exact absurd ((hs hbound).1.symm.trans h) (by intro h; cases h)
      | unknown h => exact absurd ((hs hbound).1.symm.trans h) (by intro h; cases h)
      | retry _ h => exact absurd ((hs hbound).1.symm.trans h) (by intro h; cases h)
      | sent h => exact absurd ((hs hbound).1.symm.trans h) (by intro h; cases h)
  | put buf => exact hs
  | done index =>
      obtain ⟨hbound, -, hrxThread, hsent, -⟩ := sameHostSide_done pools index s
      rw [hbound, hrxThread, hsent]
      exact hs

def isPut : Event → Bool
  | .put _ => true
  | _ => false

/-- The buffers of the controller that it has back, and those that it does not. -/
def putBufs (s : Ipc) : Nat :=
  s.released + (inThread s.rxThread).length + s.rxQueue.length

theorem SameHostSide.putBufs {s s' : Ipc} (h : SameHostSide s s') :
    HciDelivery.putBufs s' = HciDelivery.putBufs s := by
  rw [HciDelivery.putBufs, h.released, h.rxThread, h.rxQueue]
  rfl

theorem putBufs_step (pools : Pools) (s : Ipc) (event : Event) :
    putBufs (step pools s event) = putBufs s + (if isPut event then 1 else 0) := by
  cases event with
  | recv pktIndicator data => exact (sameHostSide_recv pools pktIndicator data s).putBufs
  | txThread err => exact (sameHostSide_txThreadRound err s).putBufs
  | bound => rfl
  | rxThread ret =>
      have hstep := rxThreadStep_cases ret s
      simp only [step]
      generalize rxThreadStep ret s = s' at hstep ⊢
      cases hstep with
      | unbound => rfl
      | bound h => simp only [putBufs, h, inThread]; rfl
      | empty => rfl
      | start h hqueue => simp [putBufs, h, hqueue, inThread, isPut]; omega
      | unknown h hqueue => simp [putBufs, h, hqueue, inThread, isPut]; omega
      | retry _ h => simp only [putBufs, h, inThread]; rfl
      | sent h => simp [putBufs, h, inThread, isPut]
  | put buf => simp [step, putBufs, isPut, Nat.add_assoc]
  | done index => exact (sameHostSide_done pools index s).putBufs

theorem putBufs_run (pools : Pools) (s : Ipc) (events : List Event) :
    putBufs (run (step pools) s events) = putBufs s + events.countP isPut := by
  induction events generalizing s with
  | nil => rfl
  | cons event events ih =>
      rw [run_cons, ih, putBufs_step, List.countP_cons, Nat.add_assoc, Nat.add_comm (ite _ _ _)]

/-- The host is sent the messages of the controller in their order, each of them
once however often the send fails, and none before the endpoint is bound; each
buffer goes back once. When the endpoint is bound, two rounds of the thread for
each buffer in the queue and one more send all that there are. -/
theorem host_gets_messages (pools : Pools) (events more : List Event) :
    let s := run (step pools) (initial pools) events
    toHost s = events.flatMap controllerMessage ∧ (s.bound = false → s.sent = []) ∧
      putBufs s = events.countP isPut ∧
      (s.bound = true → 2 * s.rxQueue.length + 1 ≤ more.countP isRound →
        events.flatMap controllerMessage <+: (run (step pools) s more).sent) := by
  have hall : toHost (run (step pools) (initial pools) events) =
      events.flatMap controllerMessage :=
    run_eq (toHost_step pools) (initial pools) events
  refine ⟨hall, ?_, ?_, ?_⟩
  · have hunbound := invariant_run_of_step (P := fun s : Ipc => s.bound = false →
      s.rxThread = .waitBound ∧ s.sent = []) (unbound_step pools)
      (fun _ => ⟨rfl, rfl⟩ : (initial pools).bound = false → _) events
    exact fun h => (hunbound h).2
  · rw [putBufs_run]
    exact Nat.zero_add _
  · intro hbound hmore
    rw [← hall]
    have hdue : Due (toHost (run (step pools) (initial pools) events)) _ _ :=
      ⟨hbound, Nat.le_refl _, by rw [List.take_length]; rfl⟩
    apply sent_of_rounds hdue pools
    refine Nat.le_trans ?_ hmore
    rw [rounds]
    split <;> omega

end ZeusLe.HciDelivery
