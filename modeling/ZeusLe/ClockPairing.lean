import Mathlib.Data.List.Pairwise
import Mathlib.Data.List.Chain
import ZeusLe.Library.Run
import ZeusLe.Library.Word
import ZeusLe.SyncTimer

/-!
Clock measurements when packets are lost. Packet `n` carries the number and the
time of packet `n - 1`; the node pairs it with its own time of that packet.
-/

namespace ZeusLe.ClockPairing

open ZeusLe.Library.Run
open ZeusLe.Library.Word
open ZeusLe.Protocol
open ZeusLe.SyncTimer

/-- What packet `n` carries. Nothing is set before the first packet. -/
def packetSync (T : Nat → UInt32) : Nat → Option ZeusAdvSync
  | 0 => none
  | n + 1 => some ⟨UInt8.ofNat n, T n⟩

/-- The node receives packet `n` at its local time `L n`. -/
def receivePacket (T L : Nat → UInt32) (t : TimerState) (n : Nat) : TimerState :=
  match packetSync T n with
  | none => t
  | some sync => syncTimerRecvAdv (L n) sync t

/-- Packets in order, fewer than 256 apart. -/
def Received (packets : List Nat) : Prop :=
  packets.IsChain fun m n => m < n ∧ n < m + 256

def followed (packets : List Nat) : List Nat :=
  packets.filter fun n => n + 1 ∈ packets

structure Expects (L : Nat → UInt32) (n : Nat) (t : TimerState) : Prop where
  init : t.init = true
  valid : t.lastAdvValid = true
  seq : t.lastAdvSeq = UInt8.ofNat n
  time : t.lastAdvTime = L n

theorem uint8_ofNat_succ (n : Nat) : UInt8.ofNat n + 1 = UInt8.ofNat (n + 1) := by
  simp

theorem Received.lt {n : Nat} {rest : List Nat} (h : Received (n :: rest)) :
    ∀ k ∈ rest, n < k := by
  have hlt : (n :: rest).IsChain (· < ·) := h.imp fun _ _ hstep => hstep.1
  exact fun k hk => List.rel_of_pairwise_cons (List.isChain_iff_pairwise.mp hlt) hk

theorem followed_cons {n : Nat} {rest : List Nat} (hlt : ∀ k ∈ rest, n < k) :
    followed (n :: rest) = (if n + 1 ∈ rest then [n] else []) ++ followed rest := by
  have hrest : rest.filter (fun k => k + 1 ∈ n :: rest) = followed rest := by
    apply List.filter_congr
    intro k hk
    have hne : k + 1 ≠ n := by
      have := hlt k hk
      omega
    simp [hne]
  simp only [followed, List.filter_cons]
  rw [hrest]
  by_cases hmem : n + 1 ∈ rest
  · simp [hmem, followed]
  · simp [hmem, followed]

theorem expects_receivePacket {T L : Nat → UInt32} {t : TimerState} (n : Nat)
    (hinit : t.init = true) : Expects L (n + 1) (receivePacket T L t (n + 1)) := by
  simp only [receivePacket, packetSync, syncTimerRecvAdv, hinit, Bool.not_true,
    Bool.false_eq_true, if_false]
  exact ⟨rfl, rfl, uint8_ofNat_succ n, rfl⟩

theorem updates_receivePacket {T L : Nat → UInt32} {t : TimerState} {n m : Nat}
    (ht : Expects L n t) (hlt : n < m) (hgap : m < n + 256) :
    (receivePacket T L t m).updates =
      t.updates ++ if m = n + 1 then [(L n, T n)] else [] := by
  obtain ⟨k, rfl⟩ : ∃ k, m = k + 1 := ⟨m - 1, by omega⟩
  have hseq : UInt8.ofNat k = UInt8.ofNat n ↔ k = n := by
    rw [uint8_ofNat_eq_iff]
    omega
  simp only [receivePacket, packetSync, syncTimerRecvAdv, ht.init, ht.valid, ht.seq, ht.time]
  by_cases hk : k = n
  · subst hk
    simp
  · have hne : UInt8.ofNat k ≠ UInt8.ofNat n := fun heq => hk (hseq.mp heq)
    simp [hk, hne]

theorem run_of_expects {T L : Nat → UInt32} {t : TimerState} {n : Nat} {rest : List Nat}
    (hreceived : Received (n :: rest)) (ht : Expects L n t) :
    (run (receivePacket T L) t rest).updates =
      t.updates ++ (followed (n :: rest)).map fun n => (L n, T n) := by
  induction rest generalizing n t with
  | nil => simp [followed]
  | cons m rest ih =>
      obtain ⟨⟨hlt, hgap⟩, hrest⟩ := List.isChain_cons_cons.mp hreceived
      obtain ⟨k, rfl⟩ : ∃ k, m = k + 1 := ⟨m - 1, by omega⟩
      have hmem : n + 1 ∈ (k + 1) :: rest ↔ k + 1 = n + 1 := by
        constructor
        · intro h
          rcases List.mem_cons.mp h with heq | hin
          · exact heq.symm
          · have := Received.lt hrest (n + 1) hin
            omega
        · intro heq
          rw [heq]
          exact List.mem_cons_self
      rw [run_cons, ih hrest (expects_receivePacket k ht.init),
        updates_receivePacket ht hlt hgap, followed_cons (Received.lt hreceived)]
      simp only [hmem]
      by_cases hk : k = n
      · simp [hk]
      · simp [hk]

theorem run_of_first {T L : Nat → UInt32} {n : Nat} {rest : List Nat}
    (hreceived : Received ((n + 1) :: rest)) :
    (run (receivePacket T L) timerInitial ((n + 1) :: rest)).updates =
      (followed ((n + 1) :: rest)).map fun n => (L n, T n) := by
  have hfirst : (receivePacket T L timerInitial (n + 1)).updates = [] := by
    simp [receivePacket, packetSync, syncTimerRecvAdv, timerInitial]
  rw [run_cons, run_of_expects hreceived (expects_receivePacket n rfl), hfirst,
    List.nil_append]

theorem filter_pos_eq_self {packets : List Nat} (hpos : ∀ n ∈ packets, 0 < n) :
    (followed packets).filter (0 < ·) = followed packets := by
  apply List.filter_eq_self.mpr
  intro n hn
  exact decide_eq_true (hpos n (List.mem_of_mem_filter hn))

/-- Exactly one measurement for every packet with data whose successor is
received, each of the two times of one packet. -/
theorem updates_of_received (T L : Nat → UInt32) (packets : List Nat)
    (hreceived : Received packets) :
    (run (receivePacket T L) timerInitial packets).updates =
      ((followed packets).filter (0 < ·)).map fun n => (L n, T n) := by
  rcases packets with _ | ⟨n, rest⟩
  · rfl
  rcases n with _ | n
  · have hpos := Received.lt hreceived
    have hzero : (followed (0 :: rest)).filter (0 < ·) = followed rest := by
      rw [followed_cons hpos, List.filter_append, filter_pos_eq_self hpos]
      split
      · rfl
      · rfl
    rw [hzero, run_cons]
    rcases rest with _ | ⟨m, rest⟩
    · rfl
    · obtain ⟨k, rfl⟩ : ∃ k, m = k + 1 := ⟨m - 1, by have := hpos m (by simp); omega⟩
      exact run_of_first (List.isChain_cons_cons.mp hreceived).2
  · have hpos : ∀ k ∈ (n + 1) :: rest, 0 < k := by
      intro k hk
      rcases List.mem_cons.mp hk with rfl | hin
      · omega
      · have := Received.lt hreceived k hin
        omega
    rw [filter_pos_eq_self hpos]
    exact run_of_first hreceived

theorem updates_of_received_lost :
    (run (receivePacket (fun n => 100 * n.toUInt32) fun n => 100 * n.toUInt32 + 7)
      timerInitial [0, 1, 3, 4, 6]).updates = [(307, 300)] := by
  rw [updates_of_received _ _ _ (by simp [Received])]
  decide

/-- Packets 0 and 1 are both received, and no measurement is made. -/
theorem first_packet_not_measured :
    ¬ ∀ (T L : Nat → UInt32) (packets : List Nat), Received packets →
      (run (receivePacket T L) timerInitial packets).updates =
        (followed packets).map fun n => (L n, T n) := by
  intro h
  have hrun := h (fun _ => 0) (fun _ => 0) [0, 1] (by simp [Received])
  exact absurd hrun (by decide)

end ZeusLe.ClockPairing
