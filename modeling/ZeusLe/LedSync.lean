import Mathlib.Data.Nat.Dist
import ZeusLe.Broadcast
import ZeusLe.Library.DelayedWork
import ZeusLe.RecordLed

/-!
The pulses of a recording, `led_record_sync` of `led.c`, on the nodes that call
it: the audio nodes from `record_buffer`, the central from its update work. Times
are in ticks of the central's clock, without wraparound.
-/

namespace ZeusLe.LedSync

open ZeusLe.Library.DelayedWork (Work schedule take timeout timeout_pending schedule_pending
  arm_pending)
open ZeusLe.Library.Run
open ZeusLe.Protocol (zeusTimeNominalFreq)
open ZeusLe.Record (LedRecordState)

/-- `NHPOT(ZEUS_TIME_NOMINAL_FREQ * 8)`, the next power of two. -/
def ledRecordSyncInterval : UInt32 := 134217728

def ticksPerMs : Nat := 16000

/-- The delay, in milliseconds. -/
def syncDelayMs (time : UInt32) : UInt64 :=
  let syncDelay := ledRecordSyncInterval - time % ledRecordSyncInterval
  syncDelay.toUInt64 * 1000 / zeusTimeNominalFreq

/-- A program that calls `led_record_sync`: a step of it may make the call, with
the LED and the time of the argument. -/
structure Caller (S C : Type) where
  step : S → C → S
  led : S → LedRecordState
  sync : S → C → Option (LedRecordState × UInt32)

/-- A node with the work item of the pulses. `due` is when the item is due that
is pending, `clock` the time of the last event, `pulses` has the times of the
calls of `led_pattern_record_sync_pulse`. -/
structure Node (S : Type) where
  program : S
  work : Work
  due : Nat
  clock : Nat
  pulses : List Nat

def initial {S : Type} (program : S) : Node S :=
  ⟨program, .idle, 0, 0, []⟩

inductive Event (C : Type) where
  | call (now : Nat) (c : C)
  | timeout (now : Nat)
  | handle (now : Nat)

section

variable {S C : Type}

def Event.time : Event C → Nat
  | .call now _ => now
  | .timeout now => now
  | .handle now => now

def ledRecordSync (now : Nat) (led : LedRecordState) (time : UInt32) (n : Node S) : Node S :=
  if led = .running then
    let delay := (syncDelayMs time).toNat * ticksPerMs
    { n with
      work := schedule now delay n.work
      due := if n.work.Pending then n.due else now + delay }
  else n

def ledRecordSyncWorkHandler (now : Nat) (led : LedRecordState) (n : Node S) : Node S :=
  if led = .running then { n with pulses := n.pulses ++ [now] } else n

variable (P : Caller S C)

def react (n : Node S) : Event C → Node S
  | .call now c =>
      let called := match P.sync n.program c with
        | some (led, time) => ledRecordSync now led time n
        | none => n
      { called with program := P.step n.program c }
  | .timeout now => { n with work := timeout now n.work }
  | .handle now =>
      if n.work.queued then
        ledRecordSyncWorkHandler now (P.led n.program) { n with work := take n.work }
      else n

def step (n : Node S) (event : Event C) : Node S :=
  { react P n event with clock := event.time }

end

/-- The recorder of an audio node. The LED may have been set in the `switch`
before the call. -/
def audio : Caller Record.Recorder Record.Call where
  step := Record.step
  led := Record.Recorder.led
  sync s
    | .buffer _ block =>
        if s.data.init then
          (Record.recordSwitch s.data block).map fun split =>
            ((RecordLed.afterSwitch split s).led, block.startTime)
        else none
    | _ => none

/-- The central. The update work has changed the LED and the data before the call. -/
def central (T : Nat → UInt32) : Caller Broadcast.State Broadcast.Event where
  step := Broadcast.step T
  led s := s.central.led
  sync s
    | .update _ =>
        if s.pending then
          let data := (CentralSync.syncAdvUpdateData s.central).2
          some (data.led, data.advData.hdr.sync.prevTime)
        else none
    | _ => none

theorem syncDelayMs_toNat (time : UInt32) :
    (syncDelayMs time).toNat =
      (ledRecordSyncInterval.toNat - time.toNat % ledRecordSyncInterval.toNat) / ticksPerMs := by
  have hinterval : ledRecordSyncInterval.toNat = 134217728 := rfl
  have hlt : time.toNat % 134217728 < 134217728 := Nat.mod_lt _ (by decide)
  have hle : time % ledRecordSyncInterval ≤ ledRecordSyncInterval := by
    rw [UInt32.le_iff_toNat_le, UInt32.toNat_mod, hinterval]
    exact hlt.le
  have hdelay : (ledRecordSyncInterval - time % ledRecordSyncInterval).toNat =
      134217728 - time.toNat % 134217728 := by
    rw [UInt32.toNat_sub_of_le _ _ hle, UInt32.toNat_mod, hinterval]
  have hfreq : zeusTimeNominalFreq.toNat = 16000 * 1000 := rfl
  have hthousand : (1000 : UInt64).toNat = 1000 := rfl
  rw [syncDelayMs, UInt64.toNat_div, UInt64.toNat_mul, UInt32.toNat_toUInt64, hdelay, hinterval,
    hfreq, hthousand, ticksPerMs, Nat.mod_eq_of_lt (by omega), Nat.mul_div_mul_right _ _ (by decide)]

/-- The item is due within a millisecond before the next point of the grid, as far
behind it as the call comes behind the time of its argument. -/
theorem due_near {t now maxLag : Nat} (ht : t ≤ now) (hlag : now ≤ t + maxLag) :
    ∃ grid, ledRecordSyncInterval.toNat ∣ grid ∧ t < grid ∧
      grid ≤ t + ledRecordSyncInterval.toNat ∧
      now + (syncDelayMs (UInt32.ofNat t)).toNat * ticksPerMs ≤ grid + maxLag ∧
      grid < now + (syncDelayMs (UInt32.ofNat t)).toNat * ticksPerMs + ticksPerMs := by
  have hinterval : ledRecordSyncInterval.toNat = 134217728 := rfl
  have hdvd : 134217728 ∣ 2 ^ 32 := by decide
  have hlt : t % 134217728 < 134217728 := Nat.mod_lt _ (by decide)
  have hsplit := Nat.div_add_mod t 134217728
  refine ⟨t + (134217728 - t % 134217728), ?_, ?_⟩
  · rw [hinterval]
    refine ⟨t / 134217728 + 1, ?_⟩
    omega
  · rw [syncDelayMs_toNat, hinterval, UInt32.toNat_ofNat', Nat.mod_mod_of_dvd t hdvd, ticksPerMs]
    omega

/-- The window of a point of the grid. -/
def InWindow (maxLag late grid pulse : Nat) : Prop :=
  grid < pulse + ticksPerMs ∧ pulse ≤ grid + maxLag + late

section

variable {S C : Type}

/-- Events come in order, an item is served no later than `late` after it is due,
and `led_record_sync` is called no later than `maxLag` after the time of its
argument, of which it gets the low 32 bits. -/
structure Timely (P : Caller S C) (maxLag late : Nat) (n : Node S) (event : Event C) : Prop where
  clock : n.clock ≤ event.time
  served : n.work.Pending → event.time ≤ n.due + late
  stamped : ∀ now c led time, event = .call now c → P.sync n.program c = some (led, time) →
    ∃ t, time = UInt32.ofNat t ∧ t ≤ now ∧ now ≤ t + maxLag

/-- The item is pending for a point of the grid. -/
structure AimedAt (maxLag grid : Nat) (n : Node S) : Prop where
  due_le : n.due ≤ grid + maxLag
  lt_due : grid < n.due + ticksPerMs
  ahead : grid ≤ n.clock + ledRecordSyncInterval.toNat
  deadline : ∀ deadline ∈ n.work.deadline, deadline = n.due
  queued : n.work.queued = true → n.due ≤ n.clock

def Aimed (maxLag : Nat) (n : Node S) : Prop :=
  n.work.Pending → ∃ grid, ledRecordSyncInterval.toNat ∣ grid ∧ AimedAt maxLag grid n

variable {P : Caller S C} {maxLag late : Nat}

theorem step_call_none {n : Node S} {now : Nat} {c : C} (hsync : P.sync n.program c = none) :
    step P n (.call now c) = { n with program := P.step n.program c, clock := now } := by
  simp only [step, react, hsync, Event.time]

theorem step_call_some {n : Node S} {now : Nat} {c : C} {led : LedRecordState} {time : UInt32}
    (hsync : P.sync n.program c = some (led, time)) :
    step P n (.call now c) =
      { ledRecordSync now led time n with program := P.step n.program c, clock := now } := by
  simp only [step, react, hsync, Event.time]

theorem ledRecordSync_of_pending {n : Node S} (hpending : n.work.Pending) (now : Nat)
    (led : LedRecordState) (time : UInt32) : ledRecordSync now led time n = n := by
  simp only [ledRecordSync, schedule, if_pos hpending]
  split <;> rfl

theorem step_call_of_pending {n : Node S} (hpending : n.work.Pending) (now : Nat) (c : C) :
    step P n (.call now c) = { n with program := P.step n.program c, clock := now } := by
  cases hsync : P.sync n.program c with
  | none => exact step_call_none hsync
  | some arg => rw [step_call_some hsync, ledRecordSync_of_pending hpending]

theorem step_handle_queued {n : Node S} (hqueued : n.work.queued = true) (now : Nat) :
    step P n (.handle now) =
      { n with
        work := take n.work
        clock := now
        pulses := if P.led n.program = .running then n.pulses ++ [now] else n.pulses } := by
  simp only [step, react, hqueued, if_true, ledRecordSyncWorkHandler, Event.time]
  split <;> rfl

theorem step_handle_not_queued {n : Node S} (hqueued : ¬ n.work.queued = true) (now : Nat) :
    step P n (.handle now) = { n with clock := now } := by
  simp only [step, react, if_neg hqueued, Event.time]

theorem AimedAt.of_same {grid : Nat} {n m : Node S} (h : AimedAt maxLag grid n)
    (hclock : n.clock ≤ m.clock) (hdue : m.due = n.due) (hwork : m.work = n.work) :
    AimedAt maxLag grid m where
  due_le := hdue ▸ h.due_le
  lt_due := hdue ▸ h.lt_due
  ahead := h.ahead.trans (Nat.add_le_add_right hclock _)
  deadline := by
    rw [hwork, hdue]
    exact h.deadline
  queued hqueued := by
    rw [hdue]
    exact (h.queued (hwork ▸ hqueued)).trans hclock

theorem aimedAt_step {grid : Nat} {n : Node S} {event : Event C} (h : AimedAt maxLag grid n)
    (hpending : n.work.Pending) (hclock : n.clock ≤ event.time) :
    AimedAt maxLag grid (step P n event) := by
  cases event with
  | call now c =>
      rw [step_call_of_pending hpending]
      exact h.of_same hclock rfl rfl
  | timeout now =>
      have hlater : AimedAt maxLag grid { n with clock := now } := h.of_same hclock rfl rfl
      simp only [step, react, timeout, Event.time]
      cases hdeadline : n.work.deadline with
      | none => exact hlater
      | some deadline =>
          have hdue : deadline = n.due := h.deadline deadline hdeadline
          by_cases hle : deadline ≤ now
          · simp only [if_pos hle]
            refine ⟨h.due_le, h.lt_due, hlater.ahead, ?_, fun _ => hdue ▸ hle⟩
            intro _ hnone
            exact absurd hnone.symm (Option.some_ne_none _)
          · simp only [if_neg hle]
            exact hlater
  | handle now =>
      by_cases hqueued : n.work.queued = true
      · rw [step_handle_queued hqueued]
        have hahead := h.ahead.trans (Nat.add_le_add_right hclock ledRecordSyncInterval.toNat)
        exact ⟨h.due_le, h.lt_due, hahead, h.deadline, fun hfalse => absurd hfalse Bool.false_ne_true⟩
      · rw [step_handle_not_queued hqueued]
        exact h.of_same hclock rfl rfl

theorem aimedAt_schedule {n : Node S} {now : Nat} {c : C} {time : UInt32}
    (htimely : Timely P maxLag late n (.call now c)) (hpending : ¬ n.work.Pending)
    (hsync : P.sync n.program c = some (.running, time)) :
    ∃ t grid, t ≤ now ∧ now ≤ t + maxLag ∧ ledRecordSyncInterval.toNat ∣ grid ∧ t < grid ∧
      grid ≤ t + ledRecordSyncInterval.toNat ∧ AimedAt maxLag grid (step P n (.call now c)) := by
  obtain ⟨t, rfl, ht, hlag⟩ := htimely.stamped now c .running time rfl hsync
  obtain ⟨grid, hdvd, hlt, hle, hdue, hnear⟩ := due_near ht hlag
  refine ⟨t, grid, ht, hlag, hdvd, hlt, hle, ?_⟩
  rw [step_call_some hsync]
  simp only [ledRecordSync, if_true, schedule, if_neg hpending, Library.DelayedWork.arm]
  refine ⟨hdue, hnear, ?_, ?_, ?_⟩
  · simp only
    omega
  · split
    · intro _ hnone
      exact absurd hnone.symm (Option.some_ne_none _)
    · intro deadline hdeadline
      exact (Option.some.inj hdeadline).symm
  · split
    · rename_i hzero
      intro _
      simp only [hzero, Nat.add_zero, le_refl]
    · intro hqueued
      exact absurd (Or.inr hqueued) hpending

theorem aimed_step (n : Node S) (event : Event C) (hn : Aimed maxLag n)
    (htimely : Timely P maxLag late n event) : Aimed maxLag (step P n event) := by
  by_cases hpending : n.work.Pending
  · obtain ⟨grid, hdvd, h⟩ := hn hpending
    exact fun _ => ⟨grid, hdvd, aimedAt_step h hpending htimely.clock⟩
  cases event with
  | call now c =>
      cases hsync : P.sync n.program c with
      | none =>
          rw [step_call_none hsync]
          exact fun h => absurd h hpending
      | some arg =>
          obtain ⟨led, time⟩ := arg
          by_cases hled : led = .running
          · subst hled
            obtain ⟨t, grid, -, -, hdvd, -, -, h⟩ := aimedAt_schedule htimely hpending hsync
            exact fun _ => ⟨grid, hdvd, h⟩
          · rw [step_call_some hsync, ledRecordSync, if_neg hled]
            exact fun h => absurd h hpending
  | timeout now => exact fun h => absurd ((timeout_pending now n.work).mp h) hpending
  | handle now =>
      rw [step_handle_not_queued fun h => hpending (Or.inr h)]
      exact fun h => absurd h hpending

theorem AimedAt.inWindow {grid now : Nat} {n : Node S} (h : AimedAt maxLag grid n)
    (htimely : Timely P maxLag late n (.handle now)) (hqueued : n.work.queued = true) :
    InWindow maxLag late grid now := by
  have hclock : n.clock ≤ now := htimely.clock
  have hserved : now ≤ n.due + late := htimely.served (Or.inr hqueued)
  have hdue := h.queued hqueued
  obtain ⟨hle, hlt, -, -, -⟩ := h
  constructor
  · omega
  · omega

/-- Each pulse is near a point of the grid. -/
def NearGrid (maxLag late : Nat) (n : Node S) : Prop :=
  ∀ pulse ∈ n.pulses, ∃ grid, ledRecordSyncInterval.toNat ∣ grid ∧ InWindow maxLag late grid pulse

theorem step_pulses (n : Node S) (event : Event C) :
    (step P n event).pulses = n.pulses ∨
      ∃ now, event = .handle now ∧ n.work.queued = true ∧
        (step P n event).pulses = n.pulses ++ [now] := by
  cases event with
  | call now c =>
      refine Or.inl ?_
      simp only [step, react, ledRecordSync]
      split
      · split <;> rfl
      · rfl
  | timeout now => exact Or.inl rfl
  | handle now =>
      by_cases hqueued : n.work.queued = true
      · rw [step_handle_queued hqueued]
        by_cases hled : P.led n.program = .running
        · exact Or.inr ⟨now, rfl, hqueued, if_pos hled⟩
        · exact Or.inl (if_neg hled)
      · rw [step_handle_not_queued hqueued]
        exact Or.inl rfl

theorem nearGrid_step (n : Node S) (event : Event C)
    (hn : Aimed maxLag n ∧ NearGrid maxLag late n) (htimely : Timely P maxLag late n event) :
    Aimed maxLag (step P n event) ∧ NearGrid maxLag late (step P n event) := by
  obtain ⟨haimed, hnear⟩ := hn
  refine ⟨aimed_step n event haimed htimely, ?_⟩
  rcases step_pulses (P := P) n event with hsame | ⟨now, rfl, hqueued, hpulse⟩
  · rw [NearGrid, hsame]
    exact hnear
  · rw [NearGrid, hpulse]
    intro pulse hmem
    rcases List.mem_append.mp hmem with hold | hnew
    · exact hnear pulse hold
    · obtain rfl := List.mem_singleton.mp hnew
      obtain ⟨grid, hdvd, h⟩ := haimed (Or.inr hqueued)
      exact ⟨grid, hdvd, h.inWindow htimely hqueued⟩

theorem aimed_initial (program : S) : Aimed maxLag (initial program) :=
  fun h => absurd h Library.DelayedWork.not_pending_idle

theorem nearGrid_run {program : S} {events : List (Event C)}
    (htimely : Along (step P) (Timely P maxLag late) (initial program) events) :
    Aimed maxLag (run (step P) (initial program) events) ∧
      NearGrid maxLag late (run (step P) (initial program) events) :=
  invariant_run nearGrid_step ⟨aimed_initial program, nofun⟩ htimely

theorem pending_step {n : Node S} (event : Event C) (hpending : n.work.Pending) :
    (step P n event).work.Pending ∨ ∃ now, event = .handle now ∧ n.work.queued = true := by
  cases event with
  | call now c =>
      rw [step_call_of_pending hpending]
      exact Or.inl hpending
  | timeout now => exact Or.inl ((timeout_pending now n.work).mpr hpending)
  | handle now =>
      by_cases hqueued : n.work.queued = true
      · exact Or.inr ⟨now, rfl, hqueued⟩
      · rw [step_handle_not_queued hqueued]
        exact Or.inl hpending

theorem due_step {n : Node S} {event : Event C} (hpending : n.work.Pending) :
    (step P n event).due = n.due := by
  cases event with
  | call now c => rw [step_call_of_pending hpending]
  | timeout now => rfl
  | handle now =>
      by_cases hqueued : n.work.queued = true
      · rw [step_handle_queued hqueued]
      · rw [step_handle_not_queued hqueued]

/-- The pulse of a point is still to come, or it was there. -/
def Covered (maxLag late grid : Nat) (n : Node S) : Prop :=
  (n.work.Pending ∧ n.clock ≤ n.due + late ∧ AimedAt maxLag grid n) ∨
    ∃ pulse ∈ n.pulses, InWindow maxLag late grid pulse

theorem covered_step {grid : Nat} (n : Node S) (event : Event C)
    (hn : Covered maxLag late grid n)
    (hevent : Timely P maxLag late n event ∧ P.led n.program = .running) :
    Covered maxLag late grid (step P n event) := by
  obtain ⟨htimely, hled⟩ := hevent
  rcases hn with ⟨hpending, -, h⟩ | ⟨pulse, hmem, hwindow⟩
  · rcases pending_step (P := P) event hpending with hstill | ⟨now, rfl, hqueued⟩
    · refine Or.inl ⟨hstill, ?_, aimedAt_step h hpending htimely.clock⟩
      rw [due_step hpending]
      exact htimely.served hpending
    · refine Or.inr ⟨now, ?_, h.inWindow htimely hqueued⟩
      rw [step_handle_queued hqueued, if_pos hled]
      exact List.mem_append_right _ (List.mem_singleton_self now)
  · refine Or.inr ⟨pulse, ?_, hwindow⟩
    rcases step_pulses (P := P) n event with hsame | ⟨now, -, -, hpulse⟩
    · rw [hsame]
      exact hmem
    · rw [hpulse]
      exact List.mem_append_left _ hmem

theorem covered_call {grid now : Nat} {n : Node S} {c : C} {time : UInt32}
    (hn : Aimed maxLag n) (htimely : Timely P maxLag late n (.call now c))
    (hsync : P.sync n.program c = some (.running, time))
    (hgrid : ledRecordSyncInterval.toNat ∣ grid) (hbefore : now < grid)
    (hafter : grid + maxLag + late < now + ledRecordSyncInterval.toNat) :
    Covered maxLag late grid (step P n (.call now c)) := by
  have heq {grid' : Nat} (hgrid' : ledRecordSyncInterval.toNat ∣ grid')
      (hlow : grid < grid' + ledRecordSyncInterval.toNat)
      (hhigh : grid' < grid + ledRecordSyncInterval.toNat) : grid' = grid := by
    obtain ⟨k, rfl⟩ := hgrid
    obtain ⟨k', rfl⟩ := hgrid'
    have hk : k < k' + 1 := Nat.lt_of_mul_lt_mul_left (by rwa [Nat.mul_add_one])
    have hk' : k' < k + 1 := Nat.lt_of_mul_lt_mul_left (by rwa [Nat.mul_add_one])
    rw [show k' = k by omega]
  refine Or.inl ?_
  by_cases hpending : n.work.Pending
  · obtain ⟨grid', hgrid', h⟩ := hn hpending
    have hclock : n.clock ≤ now := htimely.clock
    have hserved : now ≤ n.due + late := htimely.served hpending
    have hdue := h.due_le
    have hahead := h.ahead
    obtain rfl := heq hgrid' (by omega) (by omega)
    refine ⟨?_, ?_, aimedAt_step h hpending hclock⟩
    · rw [step_call_of_pending hpending]
      exact hpending
    · rw [due_step hpending]
      exact hserved
  · obtain ⟨t, grid', ht, hlag, hgrid', hlt, hle, h⟩ := aimedAt_schedule htimely hpending hsync
    obtain rfl := heq hgrid' (by omega) (by omega)
    rw [step_call_some hsync] at h ⊢
    simp only [ledRecordSync, if_true, if_neg hpending] at h ⊢
    refine ⟨schedule_pending _ _ _, ?_, h⟩
    omega

/-- A node records around a point: it makes a call before it, and its LED shows the
recording until the window has passed. -/
structure RecordsAt (P : Caller S C) (maxLag late grid : Nat) (n : Node S)
    (before : List (Event C)) (now : Nat) (c : C) (after : List (Event C)) : Prop where
  sync : ∃ time, P.sync (run (step P) n before).program c = some (.running, time)
  notLate : now < grid
  notEarly : grid + maxLag + late < now + ledRecordSyncInterval.toNat
  recording : Along (step P) (fun n _ => P.led n.program = .running)
    (run (step P) n (before ++ [.call now c])) after
  passed : grid + maxLag + late < (run (step P) n (before ++ .call now c :: after)).clock

theorem pulse_of_recordsAt {grid : Nat} (hgrid : ledRecordSyncInterval.toNat ∣ grid) {program : S}
    {before after : List (Event C)} {now : Nat} {c : C}
    (htimely : Along (step P) (Timely P maxLag late) (initial program)
      (before ++ .call now c :: after))
    (hrecords : RecordsAt P maxLag late grid (initial program) before now c after) :
    ∃ pulse ∈ (run (step P) (initial program) (before ++ .call now c :: after)).pulses,
      InWindow maxLag late grid pulse := by
  obtain ⟨⟨time, hsync⟩, hbefore, hafter, hrecording, hpassed⟩ := hrecords
  rw [along_append, along_cons] at htimely
  obtain ⟨hfirst, hcall, hrest⟩ := htimely
  rw [run_append, run_cons, run_nil] at hrecording
  rw [run_append, run_cons] at hpassed ⊢
  have hcovered := covered_call (nearGrid_run hfirst).1 hcall hsync hgrid hbefore hafter
  rcases invariant_run covered_step hcovered (along_and hrest hrecording) with
    ⟨-, hclock, h⟩ | hpulse
  · have hdue := h.due_le
    omega
  · exact hpulse

end

theorem timely_timeout {S C : Type} {P : Caller S C} {maxLag late now : Nat} {n : Node S}
    (due : Nat) (hdue : n.due = due) (hclock : n.clock ≤ now) (hserved : now ≤ due + late) :
    Timely P maxLag late n (.timeout now) :=
  ⟨hclock, fun _ => hdue ▸ hserved, nofun⟩

theorem timely_timeout_idle {S C : Type} {P : Caller S C} {maxLag late now : Nat} {n : Node S}
    (hidle : ¬ n.work.Pending) (hclock : n.clock ≤ now) : Timely P maxLag late n (.timeout now) :=
  ⟨hclock, fun h => absurd h hidle, nofun⟩

theorem timely_handle {S C : Type} {P : Caller S C} {maxLag late now : Nat} {n : Node S}
    (due : Nat) (hdue : n.due = due) (hclock : n.clock ≤ now) (hserved : now ≤ due + late) :
    Timely P maxLag late n (.handle now) :=
  ⟨hclock, fun _ => hdue ▸ hserved, nofun⟩

def recording : Record.Recorder :=
  let s := Record.boot FileSystem.emptyCard none
  { s with data := { s.data with init := true, state := .running }, led := .running }

def audioCall : Record.Call :=
  .buffer {} ⟨[], by decide, 134000000, 160000, 4⟩

def broadcasting : Broadcast.State :=
  { Broadcast.initial with
    pending := true
    central := { CentralSync.syncInitial with
      led := .running
      advData := { CentralSync.syncInitial.advData with
        hdr := { CentralSync.syncInitial.advData.hdr with sync := ⟨0, 134100000⟩ } } } }

theorem timely_audio :
    Along (step audio) (Timely audio 160000 1000) (initial recording)
      [.call 134160000 audioCall, .timeout 134368000, .handle 134368100, .timeout 134400000] := by
  refine ⟨⟨by decide, by decide, ?_⟩, timely_timeout 134368000 (by decide) (by decide) (by decide),
    timely_handle 134368000 (by decide) (by decide) (by decide),
    timely_timeout_idle (by decide) (by decide), trivial⟩
  intro now c led time heq hsync
  cases heq
  cases hsync
  exact ⟨134000000, rfl, by decide, by decide⟩

theorem timely_central :
    Along (step (central fun _ => 0)) (Timely (central fun _ => 0) 160000 1000)
      (initial broadcasting)
      [.call 134120000 (.update 0), .timeout 134232500, .handle 134232600, .timeout 134400000] := by
  refine ⟨⟨by decide, by decide, ?_⟩, timely_timeout 134232000 (by decide) (by decide) (by decide),
    timely_handle 134232000 (by decide) (by decide) (by decide),
    timely_timeout_idle (by decide) (by decide), trivial⟩
  intro now c led time heq hsync
  cases heq
  cases hsync
  exact ⟨134100000, rfl, by decide, by decide⟩

theorem recordsAt_audio :
    RecordsAt audio 160000 1000 134217728 (initial recording) [] 134160000 audioCall
      [.timeout 134368000, .handle 134368100, .timeout 134400000] :=
  ⟨⟨134000000, rfl⟩, by decide, by decide, ⟨by decide, by decide, by decide, trivial⟩, by decide⟩

theorem recordsAt_central :
    RecordsAt (central fun _ => 0) 160000 1000 134217728 (initial broadcasting) [] 134120000
      (.update 0) [.timeout 134232500, .handle 134232600, .timeout 134400000] :=
  ⟨⟨134100000, rfl⟩, by decide, by decide, ⟨by decide, by decide, by decide, trivial⟩, by decide⟩

/-- Whatever a program does, its pulses are near points of the grid, from a
millisecond before a point on; a wraparound of the clock changes nothing. -/
theorem pulses_near_grid {S C : Type} (P : Caller S C) {maxLag late : Nat} {program : S}
    {events : List (Event C)}
    (htimely : Along (step P) (Timely P maxLag late) (initial program) events) :
    ∀ pulse ∈ (run (step P) (initial program) events).pulses,
      ∃ grid, ledRecordSyncInterval.toNat ∣ grid ∧ InWindow maxLag late grid pulse :=
  (nearGrid_run htimely).2

theorem audio_pulse_near_grid :
    ∃ grid, ledRecordSyncInterval.toNat ∣ grid ∧ InWindow 160000 1000 grid 134368100 :=
  pulses_near_grid audio timely_audio 134368100 (by decide)

/-- Two nodes that record around a point both have a pulse there, and no more than a
millisecond and the bounds on what is late lie between them. -/
theorem nodes_pulse_together {S C S' C' : Type} (P : Caller S C) (P' : Caller S' C')
    {maxLag late grid : Nat} (hgrid : ledRecordSyncInterval.toNat ∣ grid) {program : S}
    {before after : List (Event C)} {now : Nat} {c : C} {program' : S'}
    {before' after' : List (Event C')} {now' : Nat} {c' : C'}
    (htimely : Along (step P) (Timely P maxLag late) (initial program)
      (before ++ .call now c :: after))
    (hrecords : RecordsAt P maxLag late grid (initial program) before now c after)
    (htimely' : Along (step P') (Timely P' maxLag late) (initial program')
      (before' ++ .call now' c' :: after'))
    (hrecords' : RecordsAt P' maxLag late grid (initial program') before' now' c' after') :
    ∃ pulse ∈ (run (step P) (initial program) (before ++ .call now c :: after)).pulses,
      ∃ pulse' ∈ (run (step P') (initial program') (before' ++ .call now' c' :: after')).pulses,
        InWindow maxLag late grid pulse ∧ InWindow maxLag late grid pulse' ∧
          Nat.dist pulse pulse' < ticksPerMs + maxLag + late := by
  obtain ⟨pulse, hmem, hwindow⟩ := pulse_of_recordsAt hgrid htimely hrecords
  obtain ⟨pulse', hmem', hwindow'⟩ := pulse_of_recordsAt hgrid htimely' hrecords'
  refine ⟨pulse, hmem, pulse', hmem', hwindow, hwindow', ?_⟩
  obtain ⟨hlow, hhigh⟩ := hwindow
  obtain ⟨hlow', hhigh'⟩ := hwindow'
  rw [Nat.dist]
  omega

theorem audio_and_central_pulse_together :
    ∃ pulse ∈ (run (step audio) (initial recording)
        [.call 134160000 audioCall, .timeout 134368000, .handle 134368100,
          .timeout 134400000]).pulses,
      ∃ pulse' ∈ (run (step (central fun _ => 0)) (initial broadcasting)
          [.call 134120000 (.update 0), .timeout 134232500, .handle 134232600,
            .timeout 134400000]).pulses,
        InWindow 160000 1000 134217728 pulse ∧ InWindow 160000 1000 134217728 pulse' ∧
          Nat.dist pulse pulse' < ticksPerMs + 160000 + 1000 :=
  @nodes_pulse_together _ _ _ _ audio (central fun _ => 0) 160000 1000 134217728 ⟨1, by decide⟩
    recording [] [.timeout 134368000, .handle 134368100, .timeout 134400000] 134160000 audioCall
    broadcasting [] [.timeout 134232500, .handle 134232600, .timeout 134400000] 134120000
    (.update 0) timely_audio recordsAt_audio timely_central recordsAt_central

end ZeusLe.LedSync
