import ZeusLe.Library.Word
import ZeusLe.Broadcast

/-!
Delivery of the commands. A node sees some of the packets, each for the command
that was in the data when it was sent.
-/

namespace ZeusLe.CommandDelivery

open ZeusLe.Broadcast
open ZeusLe.CentralSync
open ZeusLe.Library.Run
open ZeusLe.Library.Versions
open ZeusLe.Library.Word
open ZeusLe.Mgr
open ZeusLe.Protocol

/-- The calls that a node makes, one entry for every packet it receives at the
given local time. -/
def hear (m : MgrState) : List (UInt32 × Packet) → List (Option RecordCall)
  | [] => []
  | (time, packet) :: rest =>
      match packet.data with
      | none => none :: hear m rest
      | some adv =>
          let (call, m) := mgrReceive time adv m
          call :: hear m rest

def named (accepted : List RecordCall) (content : Option Nat) : Option RecordCall :=
  content.bind fun k => accepted[k]?

/-- The bytes of a packet say what the packet is said to carry. -/
def Carries (accepted : List RecordCall) (packet : Packet) : Prop :=
  match packet.data with
  | none => packet.command = noCommand
  | some adv => ∃ data, mgrParseAdvData adv = some data ∧
      data.hdr.seq = UInt16.ofNat packet.command.version ∧
      ZeusAdvCmd.call data.cmd = named accepted packet.command.content

def history (s : State) : List (Sample Nat) :=
  noCommand :: s.sent.map Packet.command

structure Tracks (s : State) : Prop where
  queue : s.central.cmdQueue.map ZeusAdvCmd.call = (s.accepted.drop s.taken).map some
  taken_le : s.taken ≤ s.accepted.length
  cmdSeq : s.central.cmdSeq = UInt16.ofNat s.command.version
  hdr_seq : s.central.advData.hdr.seq = s.central.cmdSeq
  cmd : ZeusAdvCmd.call s.central.advData.cmd = named s.accepted s.command.content
  carries : ∀ packet ∈ s.advertised :: s.sent, Carries s.accepted packet
  ordered : (history s).Pairwise Sample.Before
  before_advertised : ∀ a ∈ history s, a.Before s.advertised.command
  before_command : ∀ a ∈ s.advertised.command :: history s, a.Before s.command
  content_lt : ∀ a ∈ s.command :: s.advertised.command :: history s,
    ∀ k ∈ a.content, k < s.taken

theorem tracks_initial : Tracks initial where
  queue := rfl
  taken_le := Nat.le_refl _
  cmdSeq := rfl
  hdr_seq := rfl
  cmd := rfl
  carries packet hpacket := by
    rw [List.mem_singleton.mp hpacket]
    rfl
  ordered := List.pairwise_singleton _ _
  before_advertised a ha := by
    rw [List.mem_singleton.mp ha]
    exact Sample.before_refl _
  before_command a ha := by
    have hnone : a = noCommand := by simpa [history, initial] using ha
    rw [hnone]
    exact Sample.before_refl _
  content_lt a ha := by
    have hnone : a = noCommand := by simpa [history, initial] using ha
    simp [hnone, noCommand]

theorem named_append {accepted : List RecordCall} {content : Option Nat} (call : RecordCall)
    (hlt : ∀ k ∈ content, k < accepted.length) :
    named (accepted ++ [call]) content = named accepted content := by
  rcases content with _ | k
  · rfl
  · exact List.getElem?_append_left (hlt k rfl)

theorem Carries.append {accepted : List RecordCall} {packet : Packet} (call : RecordCall)
    (hlt : ∀ k ∈ packet.command.content, k < accepted.length) (h : Carries accepted packet) :
    Carries (accepted ++ [call]) packet := by
  simp only [Carries, named_append call hlt]
  exact h

theorem tracks_transmit {T : Nat → UInt32} {s : State} (h : Tracks s) :
    Tracks (step T s .transmit) := by
  have hhistory : history (step T s .transmit) = history s ++ [s.advertised.command] := by
    simp [history, step]
  refine
    { queue := h.queue
      taken_le := h.taken_le
      cmdSeq := h.cmdSeq
      hdr_seq := h.hdr_seq
      cmd := h.cmd
      carries := ?_
      ordered := ?_
      before_advertised := ?_
      before_command := ?_
      content_lt := ?_ }
  · intro packet hpacket
    have hmem : packet = s.advertised ∨ packet ∈ s.sent := by
      simpa [step, or_comm] using hpacket
    rcases hmem with rfl | hsent
    · exact h.carries _ List.mem_cons_self
    · exact h.carries packet (List.mem_cons_of_mem _ hsent)
  · rw [hhistory]
    refine List.pairwise_append.mpr ⟨h.ordered, List.pairwise_singleton _ _, ?_⟩
    intro a ha b hb
    rw [List.mem_singleton.mp hb]
    exact h.before_advertised a ha
  · intro a ha
    rw [hhistory] at ha
    rcases List.mem_append.mp ha with hold | hlast
    · exact h.before_advertised a hold
    · rw [List.mem_singleton.mp hlast]
      exact Sample.before_refl _
  · intro a ha
    rw [hhistory] at ha
    apply h.before_command a
    have hmem : a = s.advertised.command ∨ a ∈ history s := by
      simpa [step, or_comm] using ha
    exact List.mem_cons.mpr hmem
  · intro a ha
    rw [hhistory] at ha
    apply h.content_lt a
    have hmem : a = s.command ∨ a = s.advertised.command ∨ a ∈ history s := by
      simpa [step, or_comm, or_assoc, or_left_comm] using ha
    simpa using hmem

theorem tracks_ipcRecv {T : Nat → UInt32} {s : State} (h : Tracks s) :
    Tracks (step T s .ipcRecv) := by
  simp only [step]
  split
  · exact h
  · exact
      { queue := h.queue
        taken_le := h.taken_le
        cmdSeq := h.cmdSeq
        hdr_seq := h.hdr_seq
        cmd := h.cmd
        carries := h.carries
        ordered := h.ordered
        before_advertised := h.before_advertised
        before_command := h.before_command
        content_lt := h.content_lt }

theorem tracks_accept {cmd : ZeusAdvCmd} {call : RecordCall} {s : State} (h : Tracks s)
    (hcall : ZeusAdvCmd.call cmd = some call) :
    Tracks (accept call (putCmd cmd s.central) s) := by
  by_cases hroom : s.central.cmdQueue.length < syncCmdQueueLen
  · have hlt : ∀ a ∈ s.command :: s.advertised.command :: history s,
        ∀ k ∈ a.content, k < s.accepted.length :=
      fun a ha k hk => Nat.lt_of_lt_of_le (h.content_lt a ha k hk) h.taken_le
    have hcarries : ∀ packet ∈ s.advertised :: s.sent,
        Carries (s.accepted ++ [call]) packet := by
      intro packet hpacket
      refine (h.carries packet hpacket).append call (hlt _ ?_)
      rcases List.mem_cons.mp hpacket with rfl | hsent
      · simp
      · simp only [history, List.mem_cons, List.mem_map]
        exact .inr (.inr (.inr ⟨packet, hsent, rfl⟩))
    have hqueue : (s.central.cmdQueue ++ [cmd]).map ZeusAdvCmd.call =
        ((s.accepted ++ [call]).drop s.taken).map some := by
      rw [List.drop_append_of_le_length h.taken_le, List.map_append, List.map_append, h.queue]
      simp [hcall]
    simp only [accept, putCmd, if_pos hroom, if_true]
    exact
      { queue := hqueue
        taken_le := by simpa using Nat.le_succ_of_le h.taken_le
        cmdSeq := h.cmdSeq
        hdr_seq := h.hdr_seq
        cmd := by rw [named_append call (hlt _ List.mem_cons_self)]; exact h.cmd
        carries := hcarries
        ordered := h.ordered
        before_advertised := h.before_advertised
        before_command := h.before_command
        content_lt := h.content_lt }
  · have hfull : ¬ -enomsg = 0 := by decide
    simp only [accept, putCmd, if_neg hroom, if_neg hfull]
    exact h

/-- What an update leaves behind: the command in the data, its record and the
queue agree again, and all that was recorded before comes before. -/
structure Follows (s : State) (central : SyncData) (command : Sample Nat) (taken : Nat) :
    Prop where
  queue : central.cmdQueue.map ZeusAdvCmd.call = (s.accepted.drop taken).map some
  taken_ge : s.taken ≤ taken
  taken_le : taken ≤ s.accepted.length
  cmdSeq : central.cmdSeq = UInt16.ofNat command.version
  hdr_seq : central.advData.hdr.seq = central.cmdSeq
  cmd : ZeusAdvCmd.call central.advData.cmd = named s.accepted command.content
  after : ∀ a : Sample Nat, a.Before s.command → (∀ k ∈ a.content, k < s.taken) →
    a.Before command
  content_lt : ∀ k ∈ command.content, k < taken

theorem call_eq_none_iff (cmd : ZeusAdvCmd) : ZeusAdvCmd.call cmd = none ↔ cmd = .none := by
  cases cmd <;> simp [ZeusAdvCmd.call]

theorem nextCommand_eq {central : SyncData} {s : State} (h : Tracks s)
    (hempty : s.central.cmdQueue = []) (hseq : central.cmdSeq = s.central.cmdSeq)
    (hcmd : central.advData.cmd = s.central.advData.cmd) : nextCommand central s = s.command := by
  have hcontent : s.central.advData.cmd = .none → s.command.content = none := by
    intro hnone
    rcases hk : s.command.content with _ | k
    · rfl
    · have hlt := h.content_lt s.command List.mem_cons_self k hk
      have hnamed := h.cmd
      rw [(call_eq_none_iff _).mpr hnone, hk] at hnamed
      have hle : s.accepted.length ≤ k := List.getElem?_eq_none_iff.mp hnamed.symm
      have hle' := h.taken_le
      omega
  simp only [nextCommand, if_pos hseq, hcmd, hempty, List.isEmpty_nil, if_true]
  split
  · next hnone => rw [← hcontent hnone]
  · rfl

theorem follows_new {s : State} (h : Tracks s) {central : SyncData} {content : Option Nat}
    {taken : Nat} (hqueue : central.cmdQueue.map ZeusAdvCmd.call =
      (s.accepted.drop taken).map some)
    (hge : s.taken ≤ taken) (hle : taken ≤ s.accepted.length)
    (hseq : central.cmdSeq = s.central.cmdSeq + 1)
    (hhdr : central.advData.hdr.seq = s.central.cmdSeq + 1)
    (hcmd : ZeusAdvCmd.call central.advData.cmd = named s.accepted content)
    (hcontent : ∀ k ∈ content, s.taken ≤ k ∧ k < taken) :
    Follows s central ⟨s.command.version + 1, content⟩ taken where
  queue := hqueue
  taken_ge := hge
  taken_le := hle
  cmdSeq := by rw [hseq, h.cmdSeq]; simp
  hdr_seq := hhdr.trans hseq.symm
  cmd := hcmd
  after a ha hlt := ha.next fun k hk k' hk' => Nat.lt_of_lt_of_le (hlt k hk) (hcontent k' hk').1
  content_lt k hk := (hcontent k hk).2

theorem nextCommand_new {central : SyncData} {s : State}
    (hseq : central.cmdSeq = s.central.cmdSeq + 1) :
    nextCommand central s = ⟨s.command.version + 1, (nextCommand central s).content⟩ := by
  have hne : s.central.cmdSeq + 1 ≠ s.central.cmdSeq := by simp
  simp only [nextCommand, hseq, if_neg hne]

theorem follows_syncAdvUpdateData {s : State} (h : Tracks s) :
    Follows s (syncAdvUpdateData s.central).2 (nextCommand (syncAdvUpdateData s.central).2 s)
      (if s.central.cmdQueue.isEmpty then s.taken else s.taken + 1) := by
  have hcases := syncAdvUpdateData_cases s.central
  have hdrop := h.queue
  generalize (syncAdvUpdateData s.central).2 = central at hcases ⊢
  rcases hcases with ⟨hempty, hqueue, hseq, hhdr, hcmd⟩ | ⟨hqueue, hseq, hhdr, hcmd⟩
  · rw [nextCommand_eq h hempty hseq hcmd, hempty]
    rw [hempty] at hdrop
    exact
      { queue := by rw [hqueue]; exact hdrop
        taken_ge := Nat.le_refl _
        taken_le := h.taken_le
        cmdSeq := hseq.trans h.cmdSeq
        hdr_seq := by rw [hhdr, hseq]; exact h.hdr_seq
        cmd := by rw [hcmd]; exact h.cmd
        after := fun a ha _ => ha
        content_lt := h.content_lt s.command List.mem_cons_self }
  · rw [nextCommand_new hseq]
    rcases hs : s.central.cmdQueue with _ | ⟨cmd, queue⟩
    · have hnone : central.advData.cmd = .none := by simpa [hs] using hcmd
      have hcontent : (nextCommand central s).content = none := by
        simp only [nextCommand, if_pos hnone]
      rw [hs] at hdrop hqueue
      rw [hcontent]
      exact follows_new h (by rw [hqueue]; exact hdrop) (Nat.le_refl _) h.taken_le hseq hhdr
        (by rw [hnone]; rfl) (by simp)
    · rw [hs, List.map_cons] at hdrop
      have hlt : s.taken < s.accepted.length := by
        by_contra hge
        rw [List.drop_eq_nil_of_le (Nat.not_lt.mp hge)] at hdrop
        exact absurd hdrop (List.cons_ne_nil _ _)
      rw [List.drop_eq_getElem_cons hlt, List.map_cons] at hdrop
      obtain ⟨hcall, hrest⟩ := List.cons.inj hdrop
      rw [hs] at hqueue hcmd
      refine follows_new h (by rw [hqueue]; exact hrest) (Nat.le_succ _) hlt hseq hhdr ?_ ?_
      · rcases hcmd with hnone | hhead
        · simp only [nextCommand, if_pos hnone]
          rw [hnone]
          rfl
        · have heq : cmd = central.advData.cmd := by simpa using hhead
          have hsome : central.advData.cmd ≠ .none := by
            intro hnone
            rw [heq, hnone] at hcall
            cases hcall
          simp only [nextCommand, if_neg hsome, hs, List.isEmpty_cons, Bool.false_eq_true,
            if_false]
          rw [← heq, hcall]
          exact (List.getElem?_eq_getElem hlt).symm
      · intro k hk
        simp only [nextCommand, hs, List.isEmpty_cons, Bool.false_eq_true, if_false] at hk
        split at hk
        · cases hk
        · cases hk
          exact ⟨Nat.le_refl _, Nat.lt_succ_self _⟩

theorem tracks_syncAdvUpdateHandler (err : Int) {s : State} (h : Tracks s) :
    Tracks (syncAdvUpdateHandler err s) := by
  have hnext := follows_syncAdvUpdateData h
  have hbtData := syncAdvUpdateData_btData s.central
  simp only [syncAdvUpdateHandler]
  generalize syncAdvUpdateData s.central = res at hnext hbtData ⊢
  generalize nextCommand res.2 s = command at hnext ⊢
  generalize (if s.central.cmdQueue.isEmpty then s.taken else s.taken + 1) = taken at hnext ⊢
  have hold : ∀ a ∈ s.command :: s.advertised.command :: history s,
      ∀ k ∈ a.content, k < taken :=
    fun a ha k hk => Nat.lt_of_lt_of_le (h.content_lt a ha k hk) hnext.taken_ge
  have hafter : ∀ a ∈ s.advertised.command :: history s, a.Before command :=
    fun a ha => hnext.after a (h.before_command a ha)
      (h.content_lt a (List.mem_cons_of_mem _ ha))
  have hnew : Carries s.accepted ⟨some res.1, command⟩ := by
    refine ⟨res.2.advData, ?_, ?_, hnext.cmd⟩
    · rw [hbtData]
      exact mgrParseAdvData_btData _
    · exact hnext.hdr_seq.trans hnext.cmdSeq
  by_cases herr : err = 0
  · rw [if_pos herr]
    exact
      { queue := hnext.queue
        taken_le := hnext.taken_le
        cmdSeq := hnext.cmdSeq
        hdr_seq := hnext.hdr_seq
        cmd := hnext.cmd
        carries := by
          intro packet hpacket
          rcases List.mem_cons.mp hpacket with rfl | hsent
          · exact hnew
          · exact h.carries packet (List.mem_cons_of_mem _ hsent)
        ordered := h.ordered
        before_advertised := fun a ha => hafter a (List.mem_cons_of_mem _ ha)
        before_command := by
          intro a ha
          rcases List.mem_cons.mp ha with rfl | hsent
          · exact Sample.before_refl _
          · exact hafter a (List.mem_cons_of_mem _ hsent)
        content_lt := by
          intro a ha k hk
          rcases List.mem_cons.mp ha with rfl | ha
          · exact hnext.content_lt k hk
          · rcases List.mem_cons.mp ha with rfl | ha
            · exact hnext.content_lt k hk
            · exact hold a (List.mem_cons_of_mem _ (List.mem_cons_of_mem _ ha)) k hk }
  · rw [if_neg herr]
    exact
      { queue := hnext.queue
        taken_le := hnext.taken_le
        cmdSeq := hnext.cmdSeq
        hdr_seq := hnext.hdr_seq
        cmd := hnext.cmd
        carries := h.carries
        ordered := h.ordered
        before_advertised := h.before_advertised
        before_command := hafter
        content_lt := by
          intro a ha k hk
          rcases List.mem_cons.mp ha with rfl | ha
          · exact hnext.content_lt k hk
          · exact hold a (List.mem_cons_of_mem _ ha) k hk }

theorem tracks_step (T : Nat → UInt32) {s : State} (h : Tracks s) (e : Event) :
    Tracks (step T s e) := by
  cases e with
  | transmit => exact tracks_transmit h
  | ipcRecv => exact tracks_ipcRecv h
  | update err =>
      simp only [step]
      split
      · exact tracks_syncAdvUpdateHandler err h
      · exact h
  | start => exact tracks_accept h rfl
  | stop => exact tracks_accept h rfl

theorem tracks_run (T : Nat → UInt32) (events : List Event) :
    Tracks (run (step T) initial events) :=
  invariant_run_of_step (P := Tracks) (fun _ e h => tracks_step T h e) tracks_initial events

theorem hear_eq_acted {accepted : List RecordCall} {m : MgrState} {last : Sample Nat}
    {receptions : List (UInt32 × Packet)}
    (hseq : m.lastCmdSeq = UInt16.ofNat last.version)
    (hcarries : ∀ r ∈ receptions, Carries accepted r.2)
    (hordered : (last :: receptions.map fun r => r.2.command).Pairwise Sample.Before)
    (hshort : ∀ a ∈ last :: receptions.map fun r => r.2.command, a.version < 65536) :
    hear m receptions =
      (acted last (receptions.map fun r => r.2.command)).map (named accepted) := by
  induction receptions generalizing m last with
  | nil => rfl
  | cons r rest ih =>
      rcases r with ⟨time, packet⟩
      have hrest : ∀ r ∈ rest, Carries accepted r.2 :=
        fun r hr => hcarries r (List.mem_cons_of_mem _ hr)
      have hpacket : Carries accepted packet := hcarries _ List.mem_cons_self
      obtain ⟨hlast, htail⟩ := List.pairwise_cons.mp hordered
      have hbefore : last.Before packet.command := hlast _ List.mem_cons_self
      have hshort' : ∀ a ∈ packet.command :: rest.map (fun r => r.2.command),
          a.version < 65536 := fun a ha => hshort a (List.mem_cons_of_mem _ ha)
      have hv := hshort last List.mem_cons_self
      have hw := hshort' packet.command List.mem_cons_self
      simp only [Carries] at hpacket
      rcases hdata : packet.data with _ | adv
      · -- no data before the first update: the node is as it was at the start
        have hnone : packet.command = noCommand := by simpa [hdata] using hpacket
        have hzero : last.version = 0 := by
          have hle := hbefore.version_le
          rw [hnone] at hle
          exact Nat.le_zero.mp hle
        have hseq' : m.lastCmdSeq = UInt16.ofNat packet.command.version := by
          rw [hseq, hnone, hzero]
          rfl
        simp only [hear, hdata, List.map_cons, acted, ih hseq' hrest htail hshort']
        rw [hnone]
        simp [noCommand, named, hzero]
      · obtain ⟨data, hparse, hnumber, hcall⟩ : ∃ data, mgrParseAdvData adv = some data ∧
            data.hdr.seq = UInt16.ofNat packet.command.version ∧
            ZeusAdvCmd.call data.cmd = named accepted packet.command.content := by
          simpa [hdata] using hpacket
        have hiff : data.hdr.seq = m.lastCmdSeq ↔ packet.command.version = last.version := by
          rw [hnumber, hseq, uint16_ofNat_eq_iff]
          omega
        simp only [hear, hdata, mgrReceive, hparse, mgrHandleAdvData, List.map_cons, acted]
        by_cases hsame : packet.command.version = last.version
        · rw [if_pos (hiff.mpr hsame), if_pos hsame]
          have hseq' : m.lastCmdSeq = UInt16.ofNat packet.command.version := by
            rw [hseq, hsame]
          apply congrArg₂ List.cons rfl
          exact ih hseq' hrest htail hshort'
        · rw [if_neg (fun heq => hsame (hiff.mp heq)), if_neg hsame]
          apply congrArg₂ List.cons hcall
          exact ih hnumber hrest htail hshort'

theorem reduceOption_map_named (accepted : List RecordCall) (contents : List (Option Nat)) :
    (contents.map (named accepted)).reduceOption =
      contents.reduceOption.filterMap (accepted[·]?) := by
  simp only [List.reduceOption, List.filterMap_map, List.filterMap_filterMap]
  rfl

theorem hear_eq_of_tracks {s : State} (htracks : Tracks s) {receptions : List (UInt32 × Packet)}
    (hshort : s.command.version < 65536) (hreceived : (receptions.map Prod.snd).Sublist s.sent) :
    (noCommand :: receptions.map fun r => r.2.command).Pairwise Sample.Before ∧
      hear mgrInitial receptions =
        (acted noCommand (receptions.map fun r => r.2.command)).map (named s.accepted) := by
  have hsublist : (noCommand :: receptions.map fun r => r.2.command).Sublist (history s) := by
    have hmap := hreceived.map Packet.command
    rw [List.map_map] at hmap
    exact hmap.cons_cons _
  have hordered := htracks.ordered.sublist hsublist
  refine ⟨hordered, hear_eq_acted rfl ?_ hordered ?_⟩
  · intro r hr
    have hsent : r.2 ∈ s.sent := hreceived.subset (List.mem_map_of_mem hr)
    exact htracks.carries r.2 (List.mem_cons_of_mem _ hsent)
  · intro a ha
    have hbefore := htracks.before_command a (List.mem_cons_of_mem _ (hsublist.subset ha))
    exact Nat.lt_of_le_of_lt hbefore.version_le hshort

theorem hear_eq_of_received {T : Nat → UInt32} {events : List Event}
    {receptions : List (UInt32 × Packet)}
    (hshort : (run (step T) initial events).command.version < 65536)
    (hreceived : (receptions.map Prod.snd).Sublist (run (step T) initial events).sent) :
    (noCommand :: receptions.map fun r => r.2.command).Pairwise Sample.Before ∧
      hear mgrInitial receptions =
        (acted noCommand (receptions.map fun r => r.2.command)).map
          (named (run (step T) initial events).accepted) :=
  hear_eq_of_tracks (tracks_run T events) hshort hreceived

/-- A node makes the calls of accepted commands, in their order and none twice:
the call of a command at the first packet received that carries it, and no
other call. -/
theorem commands_delivered (T : Nat → UInt32) (events : List Event)
    (receptions : List (UInt32 × Packet))
    (hshort : (run (step T) initial events).command.version < 65536)
    (hreceived : (receptions.map Prod.snd).Sublist (run (step T) initial events).sent) :
    let accepted := (run (step T) initial events).accepted
    (∀ r ∈ receptions, Carries accepted r.2) ∧
      (hear mgrInitial receptions).reduceOption.Sublist accepted ∧
      ∀ i, (hear mgrInitial receptions)[i]? = receptions[i]?.map fun r =>
        if r.2.command.content ∈ (receptions.take i).map (fun r => r.2.command.content) then none
        else named accepted r.2.command.content := by
  obtain ⟨hordered, hhear⟩ := hear_eq_of_received hshort hreceived
  refine ⟨?_, ?_, ?_⟩
  · intro r hr
    have hsent := hreceived.subset (List.mem_map_of_mem hr)
    exact (tracks_run T events).carries r.2 (List.mem_cons_of_mem _ hsent)
  · rw [hhear, reduceOption_map_named]
    exact filterMap_getElem?_sublist _ (acted_pairwise hordered)
  · intro i
    rw [hhear, List.getElem?_map, acted_getElem? hordered, List.getElem?_map]
    rcases receptions[i]? with _ | r
    · rfl
    · rcases hcontent : r.2.command.content with _ | k
      · simp [hcontent, named]
      · simp only [Option.map_some, hcontent, noCommand, List.map_cons, List.mem_cons,
          reduceCtorEq, false_or, List.map_take, List.map_map, Function.comp_def]
        split <;> rfl

def startStop : List Event :=
  [.transmit, .ipcRecv, .start, .update 0, .transmit, .transmit, .stop, .ipcRecv, .update 0,
    .transmit]

/-- The first packet with the start is lost. -/
def startStopReceptions : List (UInt32 × Packet) :=
  ((run (step fun n => 1000 * n.toUInt32) initial startStop).sent.drop 2).map fun p => (5, p)

theorem commands_delivered_startStop :
    (hear mgrInitial startStopReceptions).reduceOption.Sublist
      [.start (0 + 32000000), .stop] := by
  have haccepted : (run (step fun n => 1000 * n.toUInt32) initial startStop).accepted =
      [.start (0 + 32000000), .stop] := by decide
  rw [← haccepted]
  exact (commands_delivered (fun n => 1000 * n.toUInt32) startStop startStopReceptions
    (by decide) (by decide)).2.1

end ZeusLe.CommandDelivery
