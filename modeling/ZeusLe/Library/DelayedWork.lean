/-!
A work item with a delay, and a handler that reads a value some time after its
last change.
-/

namespace ZeusLe.Library.DelayedWork

universe u

/-- Waiting for a deadline, in the queue of the handlers, both, or neither. -/
structure Work where
  deadline : Option Nat
  queued : Bool
  deriving DecidableEq, Repr

def Work.idle : Work := ⟨none, false⟩

def Work.Pending (w : Work) : Prop :=
  w.deadline ≠ none ∨ w.queued = true

instance (w : Work) : Decidable w.Pending :=
  inferInstanceAs (Decidable (_ ∨ _))

/-- Without a delay, the item goes to the queue. -/
def arm (now delay : Nat) (w : Work) : Work :=
  if delay = 0 then ⟨none, true⟩ else { w with deadline := some (now + delay) }

/-- An item that is pending stays as it is. -/
def schedule (now delay : Nat) (w : Work) : Work :=
  if w.Pending then w else arm now delay w

/-- The deadline is a new one; an item in the queue stays there. -/
def reschedule (now delay : Nat) (w : Work) : Work :=
  arm now delay w

/-- The timer, which may come late. -/
def timeout (now : Nat) (w : Work) : Work :=
  match w.deadline with
  | some deadline => if deadline ≤ now then ⟨none, true⟩ else w
  | none => w

/-- The item is taken from the queue when its handler begins. -/
def take (w : Work) : Work :=
  { w with queued := false }

theorem not_pending_idle : ¬ Work.idle.Pending := by
  decide

theorem arm_pending (now delay : Nat) (w : Work) : (arm now delay w).Pending := by
  rw [arm]
  split
  · exact Or.inr rfl
  · exact Or.inl (Option.some_ne_none _)

theorem schedule_pending (now delay : Nat) (w : Work) : (schedule now delay w).Pending := by
  rw [schedule]
  split
  · assumption
  · exact arm_pending now delay w

theorem timeout_pending (now : Nat) (w : Work) : (timeout now w).Pending ↔ w.Pending := by
  rw [timeout]
  split
  · rename_i deadline hdeadline
    split
    · exact iff_of_true (Or.inr rfl) (Or.inl (by rw [hdeadline]; exact Option.some_ne_none _))
    · exact Iff.rfl
  · exact Iff.rfl

theorem timeout_due {w : Work} {now deadline : Nat} (hdeadline : w.deadline = some deadline)
    (hdue : deadline ≤ now) : timeout now w = ⟨none, true⟩ := by
  simp only [timeout, hdeadline, if_pos hdue]

/-- `seen` is what the handler read. -/
structure Watch (α : Type u) where
  current : α
  work : Work
  seen : List α
  deriving DecidableEq, Repr

inductive Event (α : Type u) where
  | change (now : Nat) (value : α)
  | timeout (now : Nat)
  | handle
  deriving DecidableEq, Repr

variable {α : Type u}

def step (delay : Nat) (s : Watch α) : Event α → Watch α
  | .change now value => { s with current := value, work := reschedule now delay s.work }
  | .timeout now => { s with work := timeout now s.work }
  | .handle =>
      if s.work.queued then { s with work := take s.work, seen := s.seen ++ [s.current] } else s

theorem step_handle {s : Watch α} (h : s.work.queued = true) (delay : Nat) :
    step delay s .handle = { s with work := take s.work, seen := s.seen ++ [s.current] } :=
  if_pos h

/-- With nothing pending, the handler has read the value as it is. -/
def Settled (s : Watch α) : Prop :=
  ¬ s.work.Pending → s.seen.getLast? = some s.current

theorem settled_handle {s : Watch α} (h : s.work.queued = true) (delay : Nat) :
    Settled (step delay s .handle) := by
  rw [step_handle h]
  intro _
  exact List.getLast?_concat

theorem settled_step (delay : Nat) (s : Watch α) (event : Event α) (hs : Settled s) :
    Settled (step delay s event) := by
  cases event with
  | change now value =>
      intro hpending
      exact absurd (arm_pending now delay s.work) hpending
  | timeout now =>
      intro hpending
      exact hs fun h => hpending ((timeout_pending now s.work).mpr h)
  | handle =>
      rcases Classical.em (s.work.queued = true) with hqueued | hqueued
      · exact settled_handle hqueued delay
      · rw [step, if_neg hqueued]
        exact hs

/-- An event before the deadline that is set at that moment. -/
def Early (s : Watch α) : Event α → Prop
  | .change now _ => ∀ deadline ∈ s.work.deadline, now < deadline
  | .timeout now => ∀ deadline ∈ s.work.deadline, now < deadline
  | .handle => True

/-- The handler waits, and has read nothing but `seen`. -/
structure Quiet (seen : List α) (s : Watch α) : Prop where
  deadline : s.work.deadline ≠ none
  queued : s.work.queued = false
  seen : s.seen = seen

theorem quiet_change {delay : Nat} (hdelay : 0 < delay) {s : Watch α} (hs : ¬ s.work.Pending)
    (now : Nat) (value : α) : Quiet s.seen (step delay s (.change now value)) := by
  simp only [step, reschedule, arm, if_neg (Nat.ne_of_gt hdelay)]
  refine ⟨Option.some_ne_none _, ?_, rfl⟩
  exact Bool.eq_false_iff.mpr fun h => hs (Or.inr h)

theorem quiet_step {delay : Nat} (hdelay : 0 < delay) {seen : List α} (s : Watch α)
    (event : Event α) (hs : Quiet seen s) (hearly : Early s event) :
    Quiet seen (step delay s event) := by
  cases event with
  | change now value =>
      simp only [step, reschedule, arm, if_neg (Nat.ne_of_gt hdelay)]
      exact ⟨Option.some_ne_none _, hs.queued, hs.seen⟩
  | timeout now =>
      obtain ⟨deadline, hdeadline⟩ := Option.ne_none_iff_exists'.mp hs.deadline
      have hbefore : ¬ deadline ≤ now := Nat.not_le.mpr (hearly deadline hdeadline)
      simp only [step, timeout, hdeadline, if_neg hbefore]
      exact hs
  | handle =>
      simp only [step, hs.queued, Bool.false_eq_true, if_false]
      exact hs

end ZeusLe.Library.DelayedWork
