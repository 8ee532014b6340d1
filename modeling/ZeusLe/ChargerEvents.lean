import ZeusLe.Library.Run
import ZeusLe.ChargerMfd

/-! No event of the charger is lost, and which steps lose one. -/

namespace ZeusLe.ChargerEvents

open ZeusLe.Library.Run
open ZeusLe.ChargerMfd

section

variable {Callback : Type} (gpio : GpioUtils Callback)

def Has (mask : EventMask) (event : Nat) : Prop :=
  mask.getLsbD event = true

instance (mask : EventMask) (event : Nat) : Decidable (Has mask event) :=
  inferInstanceAs (Decidable (_ = true))

theorem has_or (x y : EventMask) (event : Nat) :
    Has (x ||| y) event ↔ Has x event ∨ Has y event := by
  simp [Has]

theorem has_and (x y : EventMask) (event : Nat) :
    Has (x &&& y) event ↔ Has x event ∧ Has y event := by
  simp [Has]

theorem has_not (x : EventMask) (event : Nat) :
    Has (~~~x) event ↔ event < 32 ∧ ¬ Has x event := by
  simp [Has]

theorem not_has_zero (event : Nat) : ¬ Has 0 event := by
  simp [Has]

theorem Has.lt {mask : EventMask} {event : Nat} (h : Has mask event) : event < 32 :=
  BitVec.lt_of_getLsbD h

def Unmasked (s : Charger Callback) (event : Nat) : Prop :=
  event < 32 ∧ ¬ Has s.intMask event

/-- A callback of the list asks for the event. -/
def Asked (list : List Callback) (event : Nat) : Prop :=
  ∃ callback ∈ list, Has (gpio.pinMask callback) event

/-- The event was raised and has not been read, or it was read while it was
masked. -/
def Waiting (s : Charger Callback) (event : Nat) : Prop :=
  Has s.flags event ∨ Has s.pendingFlags event

/-- The event has been raised since a callback that asks for it was last called
with it. -/
def Owed (event : Nat) : List (Happening Callback) → Prop
  | [] => False
  | .raised events :: trace => Has events event ∨ Owed event trace
  | .delivered callback pins :: trace =>
      Owed event trace ∧ ¬ (Has pins event ∧ Has (gpio.pinMask callback) event)

/-- Between two calls the events that callbacks ask for are unmasked, and no
others. -/
def MaskExact (s : Charger Callback) : Prop :=
  ∀ ret, s.call = .returned ret → ∀ event, Unmasked s event ↔ Asked gpio s.callbacks.val event

def Accounted (s : Charger Callback) : Prop :=
  ∀ event, Owed gpio event s.trace → Waiting s event

def NoEventLost (s : Charger Callback) : Prop :=
  MaskExact gpio s ∧ Accounted gpio s

/-- The events that a call has unmasked before it adds its callback, or masks
after it has removed it. -/
def Exposed : Call Callback → Nat → Prop
  | .addWriteIntMask callback, event | .addSubmit callback, event | .addManage callback, event
  | .removeMask callback, event => Has (gpio.pinMask callback) event
  | .addUnmask _, _ | .removeManage _, _ | .removeWriteIntMask _, _ | .returned _, _ => False

/-- The work item finds no event that is exposed and for which no callback asks;
a callback whose mask cannot be written asks for nothing new; and a callback that
is removed shares no event with another one. -/
def Keeps (s : Charger Callback) : Input Callback → Prop
  | .work io =>
      s.intWork = true → io = 0 →
        ∀ event, Waiting s event → Exposed gpio s.call event → Asked gpio s.callbacks.val event
  | .statement io =>
      match s.call with
      | .addWriteIntMask callback =>
          io ≠ 0 → ∀ event, Has (gpio.pinMask callback) event → Asked gpio s.callbacks.val event
      | .removeWriteIntMask callback =>
          ∀ event, Has (gpio.pinMask callback) event → ¬ Asked gpio s.callbacks.val event
      | _ => True
  | _ => True

/-- The events that are unmasked before a statement of a call. -/
def Allowed (list : List Callback) : Call Callback → Nat → Prop
  | .removeWriteIntMask callback, event =>
      Asked gpio list event ∧ ¬ Has (gpio.pinMask callback) event
  | call, event => Asked gpio list event ∨ Exposed gpio call event

structure Balanced (s : Charger Callback) : Prop where
  mask : ∀ event, Unmasked s event ↔ Allowed gpio s.callbacks.val s.call event
  owed : ∀ event, Owed gpio event s.trace ↔ Waiting s event

theorem Balanced.noEventLost {s : Charger Callback} (h : Balanced gpio s) : NoEventLost gpio s := by
  constructor
  · intro ret hcall event
    rw [h.mask, hcall]
    simp [Allowed, Exposed]
  · intro event howed
    exact (h.owed event).mp howed

theorem owed_gpioFireCallbacks (pins : EventMask) (list : List Callback) (event : Nat) :
    ∀ trace, Owed gpio event (gpioFireCallbacks gpio pins list trace) ↔
      Owed gpio event trace ∧ ¬ (Has pins event ∧ Asked gpio list event) := by
  induction list with
  | nil => simp [gpioFireCallbacks, Asked]
  | cons callback list ih =>
      intro trace
      have hasked : Asked gpio (callback :: list) event ↔
          Has (gpio.pinMask callback) event ∨ Asked gpio list event := by
        simp [Asked]
      rw [gpioFireCallbacks, ih, hasked]
      split
      · simp only [Owed, has_and]
        tauto
      · rename_i hzero
        have hno : ¬ (Has (gpio.pinMask callback) event ∧ Has pins event) := by
          rw [← has_and, not_not.mp hzero]
          exact not_has_zero event
        tauto

theorem owed_work (s : Charger Callback) (hs : Balanced gpio s) (event : Nat) :
    Owed gpio event (bq2515xIntWorkHandler gpio 0 s).trace ↔
      Waiting s event ∧ ¬ (Unmasked s event ∧ Asked gpio s.callbacks.val event) := by
  have hfired : ∀ e, Has ((s.flags ||| s.pendingFlags) &&& ~~~s.intMask) e ↔
      Waiting s e ∧ Unmasked s e := by
    intro e
    rw [has_and, has_or, has_not]
    exact Iff.rfl
  simp only [bq2515xIntWorkHandler, ne_eq, not_true_eq_false, if_false]
  split
  · rw [owed_gpioFireCallbacks, hs.owed, hfired]
    tauto
  · rename_i hzero
    have hno : ¬ (Waiting s event ∧ Unmasked s event) := by
      rw [← hfired, not_not.mp hzero]
      exact not_has_zero event
    rw [hs.owed]
    constructor
    · intro hwaiting
      exact ⟨hwaiting, fun h => hno ⟨hwaiting, h.1⟩⟩
    · rintro ⟨hwaiting, -⟩
      exact hwaiting

theorem waiting_work (s : Charger Callback) (event : Nat) :
    Waiting (bq2515xIntWorkHandler gpio 0 s) event ↔ Waiting s event ∧ ¬ Unmasked s event := by
  have hpending : Waiting (bq2515xIntWorkHandler gpio 0 s) event ↔
      (Has s.flags event ∨ Has s.pendingFlags event) ∧ Has s.intMask event := by
    rw [← has_or, ← has_and]
    exact or_iff_right (not_has_zero event)
  rw [hpending]
  constructor
  · rintro ⟨hwaiting, hmask⟩
    exact ⟨hwaiting, fun h => h.2 hmask⟩
  · rintro ⟨hwaiting, hmask⟩
    have hlt : event < 32 := hwaiting.elim Has.lt Has.lt
    exact ⟨hwaiting, not_not.mp fun h => hmask ⟨hlt, h⟩⟩

theorem Balanced.of_allowed {s t : Charger Callback} (hs : Balanced gpio s)
    (hmask : ∀ event, Unmasked t event ↔ Allowed gpio t.callbacks.val t.call event) (hflags : t.flags = s.flags)
    (hpending : t.pendingFlags = s.pendingFlags) (htrace : t.trace = s.trace) :
    Balanced gpio t := by
  refine ⟨hmask, ?_⟩
  intro event
  simp only [Waiting, hflags, hpending, htrace]
  exact hs.owed event

theorem balanced_event {s : Charger Callback} (hs : Balanced gpio s) (events : EventMask) :
    Balanced gpio (step gpio s (.event events)) := by
  refine ⟨hs.mask, ?_⟩
  intro event
  simp only [step, Owed, Waiting, has_or]
  rw [hs.owed, Waiting]
  tauto

theorem balanced_work_iff {s : Charger Callback} (hs : Balanced gpio s) :
    Accounted gpio (bq2515xIntWorkHandler gpio 0 s) ↔
      ∀ event, Waiting s event → Exposed gpio s.call event → Asked gpio s.callbacks.val event := by
  constructor
  · intro haccounted event hwaiting hexposed
    have hunmasked : Unmasked s event := by
      rw [hs.mask]
      cases hcall : s.call <;> simp only [hcall, Exposed] at hexposed
      all_goals exact Or.inr hexposed
    apply Classical.byContradiction
    intro hasked
    have howed := (owed_work gpio s hs event).mpr ⟨hwaiting, fun h => hasked h.2⟩
    exact ((waiting_work gpio s event).mp (haccounted event howed)).2 hunmasked
  · intro hasked event howed
    obtain ⟨hwaiting, hdelivered⟩ := (owed_work gpio s hs event).mp howed
    refine (waiting_work gpio s event).mpr ⟨hwaiting, fun hunmasked => hdelivered ⟨hunmasked, ?_⟩⟩
    have hallowed := (hs.mask event).mp hunmasked
    have hexposed := hasked event hwaiting
    cases hcall : s.call <;> simp only [hcall, Allowed] at hallowed hexposed
    case removeWriteIntMask => exact hallowed.1
    all_goals exact hallowed.elim id hexposed

theorem balanced_work {s : Charger Callback} (hs : Balanced gpio s)
    (hasked : ∀ event, Waiting s event → Exposed gpio s.call event →
      Asked gpio s.callbacks.val event) :
    Balanced gpio (bq2515xIntWorkHandler gpio 0 s) := by
  refine ⟨hs.mask, ?_⟩
  intro event
  constructor
  · exact (balanced_work_iff gpio hs).mpr hasked event
  · intro hwaiting
    obtain ⟨hbefore, hmasked⟩ := (waiting_work gpio s event).mp hwaiting
    exact (owed_work gpio s hs event).mpr ⟨hbefore, fun h => hmasked h.1⟩

theorem balanced_addUnmask {s : Charger Callback} (hs : Balanced gpio s) {callback : Callback}
    (hcall : s.call = .addUnmask callback) (io : Int) : Balanced gpio (statement gpio io s) := by
  have hmask := hs.mask
  simp only [hcall, Allowed, Exposed, or_false] at hmask
  simp only [statement, hcall]
  refine hs.of_allowed gpio ?_ rfl rfl rfl
  intro event
  have hlt : Has (gpio.pinMask callback) event → event < 32 := Has.lt
  simp only [Allowed, Exposed, ← hmask, Unmasked, has_and, has_not]
  tauto

theorem balanced_addSubmit {s : Charger Callback} (hs : Balanced gpio s) {callback : Callback}
    (hcall : s.call = .addSubmit callback) (io : Int) : Balanced gpio (statement gpio io s) := by
  have hmask := hs.mask
  simp only [hcall] at hmask
  simp only [statement, hcall]
  exact hs.of_allowed gpio hmask rfl rfl rfl

theorem balanced_addManage {s : Charger Callback} (hs : Balanced gpio s) {callback : Callback}
    (hcall : s.call = .addManage callback) (io : Int) : Balanced gpio (statement gpio io s) := by
  have hmask := hs.mask
  simp only [hcall, Allowed, Exposed] at hmask
  simp only [statement, hcall]
  refine hs.of_allowed gpio ?_ rfl rfl rfl
  intro event
  have hunmasked := hmask event
  simp only [Unmasked] at hunmasked
  simp only [Unmasked, Allowed, Exposed, or_false, hunmasked, Asked, gpio.mem_add, exists_eq_or_imp]
  exact or_comm

theorem asked_remove (list : CallbackList Callback) (callback : Callback) (event : Nat) :
    Asked gpio (gpio.manageCallback list callback false).2.val event ↔
      ∃ other ∈ list.val, other ≠ callback ∧ Has (gpio.pinMask other) event := by
  simp only [Asked, gpio.mem_remove, and_assoc]

theorem asked_remove_of_notMem {list : CallbackList Callback} {callback : Callback}
    (hmem : callback ∉ list.val) (event : Nat) :
    Asked gpio (gpio.manageCallback list callback false).2.val event ↔
      Asked gpio list.val event := by
  rw [asked_remove]
  constructor
  · rintro ⟨other, hother, -, hevent⟩
    exact ⟨other, hother, hevent⟩
  · rintro ⟨other, hother, hevent⟩
    exact ⟨other, hother, fun heq => hmem (heq ▸ hother), hevent⟩

theorem asked_remove_or {list : CallbackList Callback} {callback : Callback}
    (hmem : callback ∈ list.val) (event : Nat) :
    Asked gpio (gpio.manageCallback list callback false).2.val event ∨
      Has (gpio.pinMask callback) event ↔ Asked gpio list.val event := by
  rw [asked_remove]
  constructor
  · rintro (⟨other, hother, -, hevent⟩ | hevent)
    · exact ⟨other, hother, hevent⟩
    · exact ⟨callback, hmem, hevent⟩
  · rintro ⟨other, hother, hevent⟩
    rcases Classical.em (other = callback) with rfl | hne
    · exact Or.inr hevent
    · exact Or.inl ⟨other, hother, hne, hevent⟩

theorem balanced_removeManage {s : Charger Callback} (hs : Balanced gpio s) {callback : Callback}
    (hcall : s.call = .removeManage callback) (io : Int) :
    Balanced gpio (statement gpio io s) := by
  have hmask := hs.mask
  simp only [hcall, Allowed, Exposed, or_false] at hmask
  have hret := gpio.remove_ok s.callbacks callback
  simp only [statement, hcall]
  refine hs.of_allowed gpio ?_ rfl rfl rfl
  intro event
  refine (hmask event).trans ?_
  split
  · rename_i hfail
    have hmem : callback ∉ s.callbacks.val := fun h => hfail (hret.mpr h)
    simp only [Allowed, Exposed, or_false]
    exact (asked_remove_of_notMem gpio hmem event).symm
  · rename_i hok
    have hmem : callback ∈ s.callbacks.val := hret.mp (not_not.mp hok)
    exact (asked_remove_or gpio hmem event).symm

theorem balanced_removeMask {s : Charger Callback} (hs : Balanced gpio s) {callback : Callback}
    (hcall : s.call = .removeMask callback) (io : Int) : Balanced gpio (statement gpio io s) := by
  have hmask := hs.mask
  simp only [hcall, Allowed, Exposed] at hmask
  simp only [statement, hcall]
  refine hs.of_allowed gpio ?_ rfl rfl rfl
  intro event
  have hunmasked := hmask event
  simp only [Unmasked] at hunmasked
  simp only [Unmasked, has_or, Allowed]
  tauto

theorem addWriteIntMask_iff {s : Charger Callback} (hs : Balanced gpio s) {callback : Callback}
    (hcall : s.call = .addWriteIntMask callback) (io : Int) :
    (NoEventLost gpio (statement gpio io s) ↔ Keeps gpio s (.statement io)) ∧
      (Keeps gpio s (.statement io) → Balanced gpio (statement gpio io s)) := by
  have hmask := hs.mask
  simp only [hcall, Allowed, Exposed] at hmask
  simp only [Keeps, statement, hcall]
  rcases Decidable.em (io = 0) with rfl | hio
  · have hbalanced : Balanced gpio { s with
        call := if (0 : Int) ≠ 0 then .returned 0 else .addSubmit callback } :=
      hs.of_allowed gpio hmask rfl rfl rfl
    exact ⟨iff_of_true (hbalanced.noEventLost gpio) (by simp), fun _ => hbalanced⟩
  · simp only [ne_eq, hio, not_false_eq_true, if_true, true_imp_iff]
    have hbalanced : (∀ event, Has (gpio.pinMask callback) event →
        Asked gpio s.callbacks.val event) →
        Balanced gpio { s with call := .returned io } := by
      intro hasked
      refine hs.of_allowed gpio ?_ rfl rfl rfl
      intro event
      refine (hmask event).trans ?_
      simp only [Allowed, Exposed, or_false]
      exact or_iff_left_of_imp (hasked event)
    refine ⟨⟨?_, fun hasked => (hbalanced hasked).noEventLost gpio⟩, hbalanced⟩
    rintro ⟨hexact, -⟩ event hevent
    exact (hexact io rfl event).mp ((hmask event).mpr (Or.inr hevent))

theorem removeWriteIntMask_iff {s : Charger Callback} (hs : Balanced gpio s) {callback : Callback}
    (hcall : s.call = .removeWriteIntMask callback) (io : Int) :
    (NoEventLost gpio (statement gpio io s) ↔ Keeps gpio s (.statement io)) ∧
      (Keeps gpio s (.statement io) → Balanced gpio (statement gpio io s)) := by
  have hmask := hs.mask
  simp only [hcall, Allowed] at hmask
  simp only [Keeps, statement, hcall]
  have hbalanced : (∀ event, Has (gpio.pinMask callback) event →
      ¬ Asked gpio s.callbacks.val event) → Balanced gpio { s with call := .returned io } := by
    intro hshared
    refine hs.of_allowed gpio ?_ rfl rfl rfl
    intro event
    refine (hmask event).trans ?_
    simp only [Allowed, Exposed, or_false]
    exact and_iff_left_of_imp fun hasked hevent => hshared event hevent hasked
  refine ⟨⟨?_, fun hshared => (hbalanced hshared).noEventLost gpio⟩, hbalanced⟩
  rintro ⟨hexact, -⟩ event hevent hasked
  exact ((hmask event).mp ((hexact io rfl event).mpr hasked)).2 hevent

theorem keeps_of_balanced {s t : Charger Callback} {i : Input Callback} (ht : Balanced gpio t)
    (hi : Keeps gpio s i) :
    (NoEventLost gpio t ↔ Keeps gpio s i) ∧ (Keeps gpio s i → Balanced gpio t) :=
  ⟨iff_of_true (ht.noEventLost gpio) hi, fun _ => ht⟩

theorem statement_iff {s : Charger Callback} (hs : Balanced gpio s) (io : Int) :
    (NoEventLost gpio (statement gpio io s) ↔ Keeps gpio s (.statement io)) ∧
      (Keeps gpio s (.statement io) → Balanced gpio (statement gpio io s)) := by
  cases hcall : s.call with
  | addUnmask callback =>
      exact keeps_of_balanced gpio (balanced_addUnmask gpio hs hcall io) (by simp [Keeps, hcall])
  | addWriteIntMask callback => exact addWriteIntMask_iff gpio hs hcall io
  | addSubmit callback =>
      exact keeps_of_balanced gpio (balanced_addSubmit gpio hs hcall io) (by simp [Keeps, hcall])
  | addManage callback =>
      exact keeps_of_balanced gpio (balanced_addManage gpio hs hcall io) (by simp [Keeps, hcall])
  | removeManage callback =>
      exact keeps_of_balanced gpio (balanced_removeManage gpio hs hcall io) (by simp [Keeps, hcall])
  | removeMask callback =>
      exact keeps_of_balanced gpio (balanced_removeMask gpio hs hcall io) (by simp [Keeps, hcall])
  | removeWriteIntMask callback => exact removeWriteIntMask_iff gpio hs hcall io
  | returned ret =>
      have hsame : statement gpio io s = s := by simp only [statement, hcall]
      rw [hsame]
      exact keeps_of_balanced gpio hs (by simp [Keeps, hcall])

theorem balanced_begin {s : Charger Callback} (hs : Balanced gpio s) {ret : Int}
    (hcall : s.call = .returned ret) (callback : Callback) :
    Balanced gpio { s with call := .addUnmask callback } ∧
      Balanced gpio { s with call := .removeManage callback } := by
  have hmask := hs.mask
  simp only [hcall] at hmask
  exact ⟨hs.of_allowed gpio hmask rfl rfl rfl, hs.of_allowed gpio hmask rfl rfl rfl⟩

theorem work_iff {s : Charger Callback} (hs : Balanced gpio s) (io : Int) :
    (NoEventLost gpio (step gpio s (.work io)) ↔ Keeps gpio s (.work io)) ∧
      (Keeps gpio s (.work io) → Balanced gpio (step gpio s (.work io))) := by
  have htaken : Balanced gpio { s with intWork := false } := hs.of_allowed gpio hs.mask rfl rfl rfl
  simp only [step]
  split
  · rename_i hwork
    rcases Decidable.em (io = 0) with rfl | hio
    · simp only [Keeps, hwork, true_imp_iff]
      have hbalanced := balanced_work gpio htaken
      refine ⟨⟨?_, fun hasked => (hbalanced hasked).noEventLost gpio⟩, hbalanced⟩
      rintro ⟨-, haccounted⟩
      exact (balanced_work_iff gpio htaken).mp haccounted
    · have hsubmitted : bq2515xIntWorkHandler gpio io { s with intWork := false } =
          { s with intWork := true } := by
        simp [bq2515xIntWorkHandler, hio]
      rw [hsubmitted]
      refine keeps_of_balanced gpio (hs.of_allowed gpio hs.mask rfl rfl rfl) ?_
      exact fun _ h => absurd h hio
  · rename_i hwork
    exact keeps_of_balanced gpio hs fun h => absurd h hwork

theorem step_iff {s : Charger Callback} (hs : Balanced gpio s) (i : Input Callback) :
    (NoEventLost gpio (step gpio s i) ↔ Keeps gpio s i) ∧
      (Keeps gpio s i → Balanced gpio (step gpio s i)) := by
  cases i with
  | event events => exact keeps_of_balanced gpio (balanced_event gpio hs events) trivial
  | interrupt => exact keeps_of_balanced gpio (hs.of_allowed gpio hs.mask rfl rfl rfl) trivial
  | work io => exact work_iff gpio hs io
  | addCallback callback =>
      refine keeps_of_balanced gpio ?_ trivial
      simp only [step]
      split
      · rename_i hcall
        exact (balanced_begin gpio hs hcall callback).1
      · exact hs
  | removeCallback callback =>
      refine keeps_of_balanced gpio ?_ trivial
      simp only [step]
      split
      · rename_i hcall
        exact (balanced_begin gpio hs hcall callback).2
      · exact hs
  | statement io => exact statement_iff gpio hs io

theorem balanced_initial : Balanced gpio (mfdInitial Callback) := by
  constructor
  · intro event
    have hall : event < 32 → Has (0xffffffff : EventMask) event := by
      have hones : (0xffffffff : EventMask) = BitVec.allOnes 32 := by decide
      rw [hones, Has, BitVec.getLsbD_allOnes, decide_eq_true_iff]
      exact id
    simp only [Unmasked, Allowed, Asked, Exposed, mfdInitial, List.not_mem_nil, false_and,
      exists_false, or_self, iff_false]
    rintro ⟨hlt, hmasked⟩
    exact hmasked (hall hlt)
  · intro event
    exact iff_of_false id fun h => h.elim (not_has_zero event) (not_has_zero event)

/-- No event is lost, and the mask follows the callbacks, exactly in the runs in
which the work item finds no event between the two halves of a call, no mask of
an added callback fails to be written, and no removed callback shares an event. -/
theorem along_noEventLost_iff (inputs : List (Input Callback)) :
    Along (step gpio) (fun s i => NoEventLost gpio (step gpio s i)) (mfdInitial Callback) inputs ↔
      Along (step gpio) (Keeps gpio) (mfdInitial Callback) inputs :=
  along_iff_of_invariant (fun _ i hs => (step_iff gpio hs i).1)
    (fun _ i hs => (step_iff gpio hs i).2) (balanced_initial gpio)

end

/-- An event that waits while its callback is added is read before the callback
is in the list. -/
theorem event_lost_before_manage :
    ¬ Along (step (gpioUtils fun _ => 1))
      (fun s i => NoEventLost (gpioUtils fun _ => 1) (step (gpioUtils fun _ => 1) s i))
      (mfdInitial Nat)
      [.event 1, .addCallback 0, .statement 0, .statement 0, .statement 0, .work 0] := by
  rintro ⟨-, -, -, -, -, ⟨-, haccounted⟩, -⟩
  rcases haccounted 0 (Or.inl (by decide)) with hflags | hpending
  · exact absurd hflags (by decide)
  · exact absurd hpending (by decide)

end ZeusLe.ChargerEvents
