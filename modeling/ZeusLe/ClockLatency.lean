import ZeusLe.Library.Word
import ZeusLe.Broadcast

/-!
Clock measurements when the central updates its data late. All that matters for
a measurement is which packet the data is about, so the run of the central is
compared with a run that counts packets only.
-/

namespace ZeusLe.ClockLatency

open ZeusLe.Broadcast
open ZeusLe.CentralSync
open ZeusLe.Library.Run
open ZeusLe.Library.Word
open ZeusLe.Mgr
open ZeusLe.Protocol
open ZeusLe.SyncTimer

/-- A node receives the next packet; packet `n` at its local time `L n`. -/
def listen (L : Nat → UInt32) (node : Nat × MgrState) (packet : Packet) : Nat × MgrState :=
  (node.1 + 1,
    match packet.data with
    | none => node.2
    | some adv => (mgrReceive (L node.1) adv node.2).2)

/-- The calls of `freq_est_update` by a node that receives every packet. -/
def measurements (T L : Nat → UInt32) (events : List Event) : List (UInt32 × UInt32) :=
  (run (listen L) (0, mgrInitial) (run (step T) initial events).sent).2.timer.updates

/-- Packets sent, their reports taken by the application core, how many of
these the data shows, how many the last packet showed, and for every measurement
the packets of its local and of its reference time. -/
structure Link where
  sent : Nat
  reported : Nat
  pending : Bool
  advertised : Nat
  heard : Nat
  pairs : List (Nat × Nat)
  deriving DecidableEq, Repr

def linkInitial : Link := ⟨0, 0, false, 0, 0, []⟩

/-- The next packet shows one report more than the last, as far as eight bits
tell. -/
abbrev Link.measures (l : Link) : Prop :=
  0 < l.heard ∧ l.advertised % 256 = (l.heard + 1) % 256

def linkStep (l : Link) : Event → Link
  | .transmit =>
      { l with
        sent := l.sent + 1
        heard := l.advertised
        pairs := if l.measures then l.pairs ++ [(l.sent - 1, l.advertised - 1)] else l.pairs }
  | .ipcRecv =>
      if l.reported < l.sent then { l with reported := l.reported + 1, pending := true } else l
  | .update err =>
      if l.pending then
        { l with pending := false, advertised := if err = 0 then l.reported else l.advertised }
      else l
  | .start => l
  | .stop => l

/-- A packet that makes the node measure shows every report: none is still on
its way through the application core. -/
def OnTime (l : Link) : Event → Prop
  | .transmit => l.measures → l.advertised = l.sent
  | _ => True

def Shows (T : Nat → UInt32) (count : Nat) (sync : ZeusAdvSync) : Prop :=
  ∀ n, count = n + 1 → sync = ⟨UInt8.ofNat n, T n⟩

structure Bounded (l : Link) : Prop where
  heard_le : l.heard ≤ l.advertised
  advertised_le : l.advertised ≤ l.reported
  reported_le : l.reported ≤ l.sent

theorem bounded_linkStep {l : Link} (h : Bounded l) (e : Event) : Bounded (linkStep l e) := by
  obtain ⟨hheard, hadvertised, hreported⟩ := h
  cases e with
  | transmit => exact ⟨Nat.le_refl _, hadvertised, Nat.le_succ_of_le hreported⟩
  | ipcRecv =>
      simp only [linkStep]
      split
      · next hlt => exact ⟨hheard, Nat.le_succ_of_le hadvertised, hlt⟩
      · exact ⟨hheard, hadvertised, hreported⟩
  | update err =>
      simp only [linkStep]
      split
      · split
        · exact ⟨hheard.trans hadvertised, Nat.le_refl _, hreported⟩
        · exact ⟨hheard, hadvertised, hreported⟩
      · exact ⟨hheard, hadvertised, hreported⟩
  | start => exact ⟨hheard, hadvertised, hreported⟩
  | stop => exact ⟨hheard, hadvertised, hreported⟩

def OnePacket (l : Link) : Prop :=
  ∀ pair ∈ l.pairs, pair.1 = pair.2

theorem onePacket_linkStep_iff {l : Link} (h : Bounded l) (e : Event) :
    OnePacket (linkStep l e) ↔ OnePacket l ∧ OnTime l e := by
  cases e with
  | transmit =>
      simp only [linkStep, OnTime, OnePacket]
      by_cases hmeasures : l.measures
      · have hiff : l.sent - 1 = l.advertised - 1 ↔ l.advertised = l.sent := by
          have hpos := hmeasures.1
          have h1 := h.heard_le
          have h2 := h.advertised_le
          have h3 := h.reported_le
          omega
        simp only [if_pos hmeasures, List.mem_append, List.mem_singleton, ← hiff, or_imp,
          forall_and, forall_eq]
        exact and_congr_right fun _ => ⟨fun heq _ => heq, fun himp => himp hmeasures⟩
      · rw [if_neg hmeasures]
        exact ⟨fun hpairs => ⟨hpairs, fun hpos => absurd hpos hmeasures⟩, And.left⟩
  | ipcRecv =>
      simp only [linkStep, OnTime, OnePacket, and_true]
      split <;> rfl
  | update err =>
      simp only [linkStep, OnTime, OnePacket, and_true]
      split <;> rfl
  | start => simp only [linkStep, OnTime, and_true]
  | stop => simp only [linkStep, OnTime, and_true]

theorem onePacket_run_iff (events : List Event) :
    OnePacket (run linkStep linkInitial events) ↔ Along linkStep OnTime linkInitial events := by
  have hbounded : Bounded linkInitial := ⟨Nat.le_refl _, Nat.le_refl _, Nat.le_refl _⟩
  have hnone : OnePacket linkInitial := fun _ hpair => absurd hpair List.not_mem_nil
  rw [run_iff_along (fun _ e h => bounded_linkStep h e)
    (fun _ e h => onePacket_linkStep_iff h e) hbounded]
  exact and_iff_right hnone

structure Heard (T L : Nat → UInt32) (l : Link) (t : TimerState) : Prop where
  init : t.init = true
  valid : t.lastAdvValid = decide (0 < l.heard)
  seq : 0 < l.heard → t.lastAdvSeq = UInt8.ofNat l.heard
  time : 0 < l.heard → t.lastAdvTime = L (l.sent - 1)
  updates : t.updates = l.pairs.map fun pair => (L pair.1, T pair.2)

/-- The central and the node in terms of packet numbers. -/
structure Sim (T L : Nat → UInt32) (s : State) (l : Link) : Prop where
  bounded : Bounded l
  sent : s.sent.length = l.sent
  seq : s.seq = UInt8.ofNat l.sent
  messages : s.messages =
    (List.range' l.reported (l.sent - l.reported)).map fun n => ⟨UInt8.ofNat n, T n⟩
  pending : s.pending = l.pending
  pending_reported : l.pending = true → 0 < l.reported
  central : Shows T l.reported s.central.advData.hdr.sync
  advertised : match s.advertised.data with
    | none => l.advertised = 0
    | some adv => ∃ data, mgrParseAdvData adv = some data ∧
        0 < l.advertised ∧ Shows T l.advertised data.hdr.sync
  count : (run (listen L) (0, mgrInitial) s.sent).1 = l.sent
  heard : Heard T L l (run (listen L) (0, mgrInitial) s.sent).2.timer

theorem sim_initial (T L : Nat → UInt32) : Sim T L initial linkInitial where
  bounded := ⟨Nat.le_refl _, Nat.le_refl _, Nat.le_refl _⟩
  sent := rfl
  seq := rfl
  messages := rfl
  pending := rfl
  pending_reported h := by cases h
  central n h := by cases h
  advertised := rfl
  count := rfl
  heard := ⟨rfl, rfl, fun h => absurd h (Nat.lt_irrefl _), fun h => absurd h (Nat.lt_irrefl _), rfl⟩

theorem mgrHandleAdvData_timer (time : UInt32) (data : ZeusAdvData) (m : MgrState) :
    (mgrHandleAdvData time data m).2.timer = syncTimerRecvAdv time data.hdr.sync m.timer := by
  simp only [mgrHandleAdvData]
  split
  · rfl
  · rfl

theorem heard_syncTimerRecvAdv {T L : Nat → UInt32} {l : Link} {t : TimerState}
    {sync : ZeusAdvSync} (h : Heard T L l t) (hpos : 0 < l.advertised)
    (hsync : Shows T l.advertised sync) :
    Heard T L (linkStep l .transmit) (syncTimerRecvAdv (L l.sent) sync t) := by
  obtain ⟨n, hn⟩ : ∃ n, l.advertised = n + 1 := ⟨l.advertised - 1, by omega⟩
  have hmeasures : (t.lastAdvValid && sync.seq == t.lastAdvSeq) = decide l.measures := by
    rw [h.valid, hsync n hn]
    by_cases hheard : 0 < l.heard
    · have hiff : UInt8.ofNat n = UInt8.ofNat l.heard ↔
          l.advertised % 256 = (l.heard + 1) % 256 := by
        rw [uint8_ofNat_eq_iff]
        omega
      rw [h.seq hheard]
      simp [Link.measures, hheard, ← hiff, Bool.beq_eq_decide_eq]
    · simp [Link.measures, hheard]
  have hseq : sync.seq + 1 = UInt8.ofNat l.advertised := by
    rw [hsync n hn, hn]
    simp
  have hprev : sync.prevTime = T (l.advertised - 1) := by
    rw [hsync n hn, hn, Nat.add_sub_cancel]
  simp only [syncTimerRecvAdv, h.init, Bool.not_true, Bool.false_eq_true, if_false, hmeasures]
  exact
    { init := rfl
      valid := (decide_eq_true hpos).symm
      seq := fun _ => hseq
      time := fun _ => rfl
      updates := by
        by_cases hl : l.measures
        · simp only [linkStep, if_pos hl, decide_eq_true hl, if_true, h.updates, h.time hl.1,
            hprev, List.map_append, List.map_cons, List.map_nil]
        · simp only [linkStep, if_neg hl, decide_eq_false hl, Bool.false_eq_true, if_false,
            h.updates] }

theorem heard_of_empty {T L : Nat → UInt32} {l : Link} {t : TimerState} (h : Heard T L l t)
    (hbounded : Bounded l) (hzero : l.advertised = 0) :
    Heard T L (linkStep l .transmit) t := by
  have hheard : l.heard = 0 := by
    have hle := hbounded.heard_le
    omega
  have hvalid := h.valid
  have hnot : ¬ l.measures := fun hl => by
    have hpos := hl.1
    omega
  exact
    { init := h.init
      valid := by rw [hvalid, hheard]; simp [linkStep, hzero]
      seq := fun hpos => absurd hpos (by simp [linkStep, hzero])
      time := fun hpos => absurd hpos (by simp [linkStep, hzero])
      updates := by simp only [linkStep, if_neg hnot]; exact h.updates }

theorem sim_transmit {T L : Nat → UInt32} {s : State} {l : Link} (h : Sim T L s l) :
    Sim T L (step T s .transmit) (linkStep l .transmit) := by
  have hsent : (step T s .transmit).sent = s.sent ++ [s.advertised] := rfl
  have hreported := h.bounded.reported_le
  refine
    { bounded := bounded_linkStep h.bounded _
      sent := ?_
      seq := ?_
      messages := ?_
      pending := h.pending
      pending_reported := h.pending_reported
      central := h.central
      advertised := h.advertised
      count := ?_
      heard := ?_ }
  · simp [step, linkStep, h.sent]
  · simp [step, linkStep, packetTimerIsr, h.seq]
  · have hlen : l.sent + 1 - l.reported = l.sent - l.reported + 1 := by omega
    have hlast : l.reported + (l.sent - l.reported) = l.sent := by omega
    simp only [step, linkStep, packetTimerIsr, h.messages, h.sent, h.seq, hlen]
    rw [List.range'_concat]
    simp [hlast]
  · rw [hsent, run_append]
    simp [listen, linkStep, h.count]
  · rw [hsent, run_append]
    simp only [run_cons, run_nil, listen, h.count]
    have hadvertised := h.advertised
    rcases hdata : s.advertised.data with _ | adv
    · rw [hdata] at hadvertised
      exact heard_of_empty h.heard h.bounded hadvertised
    · rw [hdata] at hadvertised
      obtain ⟨data, hparse, hpos, hshows⟩ := hadvertised
      simp only [mgrReceive, hparse, mgrHandleAdvData_timer]
      exact heard_syncTimerRecvAdv h.heard hpos hshows

theorem Heard.congr {T L : Nat → UInt32} {l l' : Link} {t : TimerState} (h : Heard T L l t)
    (hheard : l'.heard = l.heard) (hsent : l'.sent = l.sent) (hpairs : l'.pairs = l.pairs) :
    Heard T L l' t where
  init := h.init
  valid := by rw [hheard]; exact h.valid
  seq := by rw [hheard]; exact h.seq
  time := by rw [hheard, hsent]; exact h.time
  updates := by rw [hpairs]; exact h.updates

theorem sim_ipcRecv {T L : Nat → UInt32} {s : State} {l : Link} (h : Sim T L s l) :
    Sim T L (step T s .ipcRecv) (linkStep l .ipcRecv) := by
  have hbounded := bounded_linkStep h.bounded .ipcRecv
  by_cases hlt : l.reported < l.sent
  · have hlen : l.sent - l.reported = l.sent - (l.reported + 1) + 1 := by omega
    have hmessages : s.messages = ⟨UInt8.ofNat l.reported, T l.reported⟩ ::
        (List.range' (l.reported + 1) (l.sent - (l.reported + 1))).map
          fun n => ⟨UInt8.ofNat n, T n⟩ := by
      rw [h.messages, hlen, List.range'_succ, List.map_cons]
    simp only [linkStep, if_pos hlt] at hbounded ⊢
    simp only [step, hmessages]
    exact
      { bounded := hbounded
        sent := h.sent
        seq := h.seq
        messages := rfl
        pending := rfl
        pending_reported := fun _ => Nat.succ_pos _
        central := by
          intro n hn
          rw [Nat.succ.inj hn]
          rfl
        advertised := h.advertised
        count := h.count
        heard := h.heard.congr rfl rfl rfl }
  · have hmessages : s.messages = [] := by
      rw [h.messages, Nat.sub_eq_zero_of_le (Nat.not_lt.mp hlt)]
      rfl
    simp only [linkStep, if_neg hlt, step, hmessages]
    exact h

theorem sim_update {T L : Nat → UInt32} {s : State} {l : Link} (err : Int) (h : Sim T L s l) :
    Sim T L (step T s (.update err)) (linkStep l (.update err)) := by
  have hbounded := bounded_linkStep h.bounded (.update err)
  by_cases hpending : l.pending = true
  · have hsync := syncAdvUpdateData_sync s.central
    have hbtData := syncAdvUpdateData_btData s.central
    simp only [linkStep, if_pos hpending] at hbounded ⊢
    simp only [step, h.pending, if_pos hpending, syncAdvUpdateHandler]
    generalize syncAdvUpdateData s.central = res at hsync hbtData ⊢
    have hcentral : Shows T l.reported res.2.advData.hdr.sync := by
      intro n hn
      rw [hsync]
      exact h.central n hn
    refine
      { bounded := hbounded
        sent := h.sent
        seq := h.seq
        messages := h.messages
        pending := rfl
        pending_reported := fun hfalse => absurd hfalse Bool.false_ne_true
        central := hcentral
        advertised := ?_
        count := h.count
        heard := h.heard.congr rfl rfl rfl }
    by_cases herr : err = 0
    · simp only [if_pos herr]
      refine ⟨res.2.advData, ?_, h.pending_reported hpending, hcentral⟩
      rw [hbtData]
      exact mgrParseAdvData_btData _
    · simp only [if_neg herr]
      exact h.advertised
  · simp only [linkStep, if_neg hpending, step, h.pending]
    exact h

theorem sim_accept {T L : Nat → UInt32} {s : State} {l : Link} (cmd : ZeusAdvCmd)
    (call : RecordCall) (h : Sim T L s l) : Sim T L (accept call (putCmd cmd s.central) s) l := by
  have hsync : (putCmd cmd s.central).2.advData = s.central.advData := by
    simp only [putCmd]
    split
    · rfl
    · rfl
  exact
    { bounded := h.bounded
      sent := h.sent
      seq := h.seq
      messages := h.messages
      pending := h.pending
      pending_reported := h.pending_reported
      central := by
        simp only [accept, hsync]
        exact h.central
      advertised := h.advertised
      count := h.count
      heard := h.heard }

theorem sim_step {T L : Nat → UInt32} {s : State} {l : Link} (e : Event) (h : Sim T L s l) :
    Sim T L (step T s e) (linkStep l e) := by
  cases e with
  | transmit => exact sim_transmit h
  | ipcRecv => exact sim_ipcRecv h
  | update err => exact sim_update err h
  | start => exact sim_accept _ _ h
  | stop => exact sim_accept _ _ h

theorem sim_run (T L : Nat → UInt32) (events : List Event) :
    Sim T L (run (step T) initial events) (run linkStep linkInitial events) := by
  have h : Sim T L (run (step T) initial events) (run linkStep linkInitial (events.map id)) :=
    simulation_run (C := fun _ _ => True) (R := Sim T L) (fun _ _ e h _ => sim_step e h)
      (sim_initial T L) (along_of_forall (fun _ _ _ => trivial) _)
  rwa [List.map_id] at h

theorem measurements_eq (T L : Nat → UInt32) (events : List Event) :
    measurements T L events =
      (run linkStep linkInitial events).pairs.map fun pair => (L pair.1, T pair.2) :=
  (sim_run T L events).heard.updates

theorem pair_lt_linkStep {l : Link} (h : ∀ pair ∈ l.pairs, pair.1 < l.sent) (e : Event) :
    ∀ pair ∈ (linkStep l e).pairs, pair.1 < (linkStep l e).sent := by
  cases e with
  | transmit =>
      intro pair hpair
      have hold : pair ∈ l.pairs → pair.1 < l.sent + 1 :=
        fun hmem => Nat.lt_succ_of_lt (h pair hmem)
      simp only [linkStep] at hpair ⊢
      split at hpair
      · rcases List.mem_append.mp hpair with hmem | hmem
        · exact hold hmem
        · rw [List.mem_singleton.mp hmem]
          exact Nat.lt_succ_of_le (Nat.sub_le _ _)
      · exact hold hpair
  | ipcRecv =>
      simp only [linkStep]
      split <;> exact h
  | update err =>
      simp only [linkStep]
      split <;> exact h
  | start => exact h
  | stop => exact h

theorem pair_lt_run (events : List Event) :
    ∀ pair ∈ (run linkStep linkInitial events).pairs,
      pair.1 < (run linkStep linkInitial events).sent :=
  invariant_run_of_step (P := fun l : Link => ∀ pair ∈ l.pairs, pair.1 < l.sent)
    (fun _ e h => pair_lt_linkStep h e) (fun _ hpair => absurd hpair List.not_mem_nil) events

theorem onePacket_of_times {pairs : List (Nat × Nat)}
    (h : ∀ T L : Nat → UInt32, ∀ pair ∈ pairs, ∃ n, (L pair.1, T pair.2) = (L n, T n)) :
    ∀ pair ∈ pairs, pair.1 = pair.2 := by
  intro pair hpair
  let mark (k n : Nat) : UInt32 := if n = k then 1 else 0
  obtain ⟨n, hn⟩ := h (mark pair.2) (mark pair.1) pair hpair
  obtain ⟨hlocal, hreference⟩ := Prod.mk.inj hn
  have hmark : ∀ k, mark k k = mark k n → n = k := by
    intro k hk
    by_contra hne
    simp [mark, hne] at hk
  rw [← hmark pair.1 hlocal, ← hmark pair.2 hreference]

/-- Whatever the times are, every measurement takes both from one packet, exactly
when every packet that makes the node measure is on time. -/
theorem measurements_one_packet_iff (events : List Event) :
    (∀ T L : Nat → UInt32, ∀ measurement ∈ measurements T L events,
        ∃ n < (run (step T) initial events).sent.length, measurement = (L n, T n)) ↔
      Along linkStep OnTime linkInitial events := by
  rw [← onePacket_run_iff]
  constructor
  · intro h
    apply onePacket_of_times
    intro T L pair hpair
    have hmem : (L pair.1, T pair.2) ∈ measurements T L events := by
      rw [measurements_eq]
      exact List.mem_map_of_mem hpair
    obtain ⟨n, -, hn⟩ := h T L _ hmem
    exact ⟨n, hn⟩
  · intro h T L measurement hmeasurement
    rw [measurements_eq] at hmeasurement
    obtain ⟨pair, hpair, rfl⟩ := List.mem_map.mp hmeasurement
    refine ⟨pair.1, ?_, by rw [h pair hpair]⟩
    rw [(sim_run T L events).sent]
    exact pair_lt_run events pair hpair

def lateUpdates : List Event :=
  [.transmit, .transmit, .ipcRecv, .update 0, .transmit, .ipcRecv, .update 0, .transmit]

/-- The local time of packet 2 is paired with the transmit time of packet 1. -/
theorem late_updates_mix_packets :
    ¬ ∀ (events : List Event) (T L : Nat → UInt32), ∀ measurement ∈ measurements T L events,
      ∃ n < (run (step T) initial events).sent.length, measurement = (L n, T n) := by
  intro h
  have hmixed : ((2007, 1000) : UInt32 × UInt32) ∈
      measurements (fun n => 1000 * n.toUInt32) (fun n => 1000 * n.toUInt32 + 7) lateUpdates := by
    decide
  obtain ⟨n, hlt, hn⟩ := h lateUpdates _ _ _ hmixed
  have hsent : (run (step fun n => 1000 * n.toUInt32) initial lateUpdates).sent.length = 4 := by
    decide
  rw [hsent] at hlt
  have hnone : ∀ n < 4,
      ((2007, 1000) : UInt32 × UInt32) ≠ (1000 * n.toUInt32 + 7, 1000 * n.toUInt32) := by
    decide
  exact hnone n hlt hn

end ZeusLe.ClockLatency
