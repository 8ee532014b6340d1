import Mathlib.Logic.Function.Basic
import ZeusLe.Library.Run

/-!
Threads that look at a shared state and later change it by what they saw: under
one mutex, or with the look before the mutex is taken. Where a look that is out
of date changes what a new one would change, the threads act one after the other.
-/

namespace ZeusLe.Library.Snapshot

open ZeusLe.Library.Run

universe u v w

variable {T S : Type u} {V R : Type v} {J D A : Type w}

/-- The requests of the threads, with the outcomes `J` of a change and the
changes `D` that come from elsewhere. -/
structure Protocol (S : Type u) (V R : Type v) (J D : Type w) where
  look : R → S → V
  change : R → V → J → S → S
  /-- Whether the look is made under the mutex, too. -/
  locked : R → Bool
  drift : D → S → S

inductive Phase (V R : Type v) where
  | idle
  | called (r : R)
  | looked (r : R) (seen : V)

theorem Phase.idle_ne_looked (r : R) (seen : V) : Phase.idle ≠ .looked r seen := by
  intro h
  cases h

theorem Phase.called_ne_looked (r r' : R) (seen : V) : Phase.called r ≠ .looked r' seen := by
  intro h
  cases h

structure State (T S : Type u) (V R : Type v) (J : Type w) where
  shared : S
  /-- The thread that has the mutex. -/
  owner : Option T
  phase : T → Phase V R
  /-- The changes that were made, in their order. -/
  log : List (T × R × J)

inductive Event (T : Type u) (R : Type v) (J D : Type w) where
  | call (t : T) (r : R)
  | look (t : T)
  /-- The look fails, or the call ends without a change. -/
  | giveUp (t : T)
  | change (t : T) (outcome : J)
  | drift (d : D)

section

variable [DecidableEq T] (P : Protocol S V R J D)

def State.setPhase (s : State T S V R J) (t : T) (phase : Phase V R) : State T S V R J :=
  { s with phase := Function.update s.phase t phase }

def release (t : T) (s : State T S V R J) : State T S V R J :=
  if s.owner = some t then { s with owner := none } else s

/-- Who has the mutex when a thread makes its change. -/
def holder (t : T) (r : R) : Option T :=
  if P.locked r then some t else none

def step (s : State T S V R J) : Event T R J D → State T S V R J
  | .call t r =>
      match s.phase t with
      | .idle => s.setPhase t (.called r)
      | _ => s
  | .look t =>
      match s.phase t with
      | .called r =>
          if P.locked r then
            if s.owner = none then
              { s.setPhase t (.looked r (P.look r s.shared)) with owner := some t }
            else s
          else s.setPhase t (.looked r (P.look r s.shared))
      | _ => s
  | .giveUp t => (release t s).setPhase t .idle
  | .change t outcome =>
      match s.phase t with
      | .looked r seen =>
          if s.owner = holder P t r then
            { s.setPhase t .idle with
              shared := P.change r seen outcome s.shared
              owner := none
              log := s.log ++ [(t, r, outcome)] }
          else s
      | _ => s
  | .drift d => { s with shared := P.drift d s.shared }

end

def initial (shared : S) : State T S V R J :=
  ⟨shared, none, fun _ => .idle, []⟩

variable (P : Protocol S V R J D) (view : S → A) (apply : R → J → A → A)

/-- A change by what was seen is the abstract request. -/
def Fresh (r : R) (seen : V) (shared : S) : Prop :=
  ∀ outcome, view (P.change r seen outcome shared) = apply r outcome (view shared)

structure Atomic : Prop where
  fresh : ∀ r shared, Fresh P view apply r (P.look r shared) shared
  drift : ∀ d shared, view (P.drift d shared) = view shared
  congr : ∀ r seen outcome shared shared', view shared = view shared' →
    view (P.change r seen outcome shared) = view (P.change r seen outcome shared')
  /-- A look without the mutex survives the changes of the others. -/
  stable : ∀ r seen r' seen' outcome shared, P.locked r = false →
    Fresh P view apply r seen shared → Fresh P view apply r' seen' shared →
      Fresh P view apply r seen (P.change r' seen' outcome shared)

/-- The changes of a log, one after the other. -/
def replay (log : List (T × R × J)) (a : A) : A :=
  log.foldl (fun a entry => apply entry.2.1 entry.2.2 a) a

theorem run_alone [DecidableEq T] (P : Protocol S V R J D) (shared : S) (t : T) (r : R)
    (outcome : J) :
    (run (step P) (initial shared) [.call t r, .look t, .change t outcome]).shared =
      P.change r (P.look r shared) outcome shared := by
  cases hlocked : P.locked r with
  | false => simp [step, initial, State.setPhase, holder, hlocked]
  | true => simp [step, initial, State.setPhase, holder, hlocked]

theorem replay_append_singleton (log : List (T × R × J)) (t : T) (r : R) (outcome : J) (a : A) :
    replay apply (log ++ [(t, r, outcome)]) a = apply r outcome (replay apply log a) := by
  rw [replay, List.foldl_append]
  rfl

/-- The thread can change the state by what it saw. -/
def Ready (s : State T S V R J) (t : T) : Prop :=
  ∀ r seen, s.phase t = .looked r seen →
    Fresh P view apply r seen s.shared ∧ (P.locked r = true → s.owner = some t)

structure Linear (a : A) (s : State T S V R J) : Prop where
  replayed : view s.shared = replay apply s.log a
  ready : ∀ t, Ready P view apply s t

variable {P view apply}

theorem Fresh.of_view_eq (hP : Atomic P view apply) {r : R} {seen : V} {shared shared' : S}
    (hview : view shared' = view shared) (h : Fresh P view apply r seen shared) :
    Fresh P view apply r seen shared' := by
  intro outcome
  rw [hP.congr r seen outcome shared' shared hview, hview]
  exact h outcome

theorem linear_initial (shared : S) :
    Linear P view apply (view shared) (initial shared : State T S V R J) :=
  ⟨rfl, fun _ r seen h => absurd h (Phase.idle_ne_looked r seen)⟩

variable [DecidableEq T]

theorem Linear.setPhase {a : A} {s : State T S V R J} (hs : Linear P view apply a s) (t : T)
    {phase : Phase V R} (hphase : ∀ r seen, phase = .looked r seen →
      Fresh P view apply r seen s.shared ∧ (P.locked r = true → s.owner = some t)) :
    Linear P view apply a (s.setPhase t phase) := by
  refine ⟨hs.replayed, ?_⟩
  intro other r seen hother
  by_cases heq : other = t
  · subst heq
    simp only [State.setPhase, Function.update_self] at hother
    exact hphase r seen hother
  · simp only [State.setPhase, Function.update_of_ne heq] at hother
    exact hs.ready other r seen hother

theorem linear_look (hP : Atomic P view apply) {a : A} {s : State T S V R J}
    (hs : Linear P view apply a s) (t : T) : Linear P view apply a (step P s (.look t)) := by
  simp only [step]
  split
  · rename_i r hcalled
    split
    · split
      · rename_i hfree
        refine ⟨hs.replayed, ?_⟩
        intro other r' seen hother
        by_cases heq : other = t
        · subst heq
          simp only [State.setPhase, Function.update_self, Phase.looked.injEq] at hother
          obtain ⟨rfl, rfl⟩ := hother
          exact ⟨hP.fresh r s.shared, fun _ => rfl⟩
        · simp only [State.setPhase, Function.update_of_ne heq] at hother
          obtain ⟨hfresh, howner⟩ := hs.ready other r' seen hother
          refine ⟨hfresh, ?_⟩
          intro hlocked
          rw [howner hlocked] at hfree
          exact absurd hfree (Option.some_ne_none other)
      · exact hs
    · rename_i hunlocked
      refine hs.setPhase t ?_
      rintro r' seen hlooked
      obtain ⟨rfl, rfl⟩ := Phase.looked.inj hlooked
      exact ⟨hP.fresh r s.shared, fun hlocked => absurd hlocked hunlocked⟩
  · exact hs

theorem linear_giveUp {a : A} {s : State T S V R J} (hs : Linear P view apply a s) (t : T) :
    Linear P view apply a ((release t s).setPhase t .idle) := by
  refine ⟨?_, ?_⟩
  · simp only [State.setPhase, release]
    split
    · exact hs.replayed
    · exact hs.replayed
  · intro other r seen hother
    by_cases heq : other = t
    · subst heq
      simp only [State.setPhase, Function.update_self] at hother
      exact absurd hother (Phase.idle_ne_looked _ _)
    · simp only [State.setPhase, Function.update_of_ne heq] at hother
      have hphase : (release t s).phase = s.phase := by
        rw [release]
        split <;> rfl
      have hshared : (release t s).shared = s.shared := by
        rw [release]
        split <;> rfl
      rw [hphase] at hother
      obtain ⟨hfresh, howner⟩ := hs.ready other r seen hother
      refine ⟨?_, ?_⟩
      · simp only [State.setPhase, hshared]
        exact hfresh
      · intro hlocked
        have hmine := howner hlocked
        have hne : s.owner ≠ some t := by
          rw [hmine]
          exact fun h => heq (Option.some.inj h)
        simp only [State.setPhase, release, if_neg hne]
        exact hmine

theorem linear_change (hP : Atomic P view apply) {a : A} {s : State T S V R J}
    (hs : Linear P view apply a s) (t : T) (outcome : J) :
    Linear P view apply a (step P s (.change t outcome)) := by
  simp only [step]
  split
  · rename_i r seen hlooked
    split
    · rename_i howner
      have hfresh := (hs.ready t r seen hlooked).1
      refine ⟨?_, ?_⟩
      · simp only
        rw [replay_append_singleton, ← hs.replayed]
        exact hfresh outcome
      · intro other r' seen' hother
        by_cases heq : other = t
        · subst heq
          simp only [State.setPhase, Function.update_self] at hother
          exact absurd hother (Phase.idle_ne_looked _ _)
        · simp only [State.setPhase, Function.update_of_ne heq] at hother
          obtain ⟨hfresh', howner'⟩ := hs.ready other r' seen' hother
          have hunlocked : P.locked r' = false := by
            rw [Bool.eq_false_iff]
            intro hlocked
            rw [howner' hlocked, holder] at howner
            split at howner
            · exact heq (Option.some.inj howner)
            · exact Option.some_ne_none other howner
          refine ⟨hP.stable r' seen' r seen outcome s.shared hunlocked hfresh' hfresh, ?_⟩
          intro hlocked
          rw [hunlocked] at hlocked
          exact absurd hlocked Bool.false_ne_true
    · exact hs
  · exact hs

theorem linear_step (hP : Atomic P view apply) {a : A} (s : State T S V R J) (event : Event T R J D)
    (hs : Linear P view apply a s) : Linear P view apply a (step P s event) := by
  cases event with
  | call t r =>
      simp only [step]
      split
      · exact hs.setPhase t fun r' seen h => absurd h (Phase.called_ne_looked r r' seen)
      · exact hs
  | look t => exact linear_look hP hs t
  | giveUp t => exact linear_giveUp hs t
  | change t outcome => exact linear_change hP hs t outcome
  | drift d =>
      refine ⟨(hP.drift d s.shared).trans hs.replayed, ?_⟩
      intro t r seen hlooked
      obtain ⟨hfresh, howner⟩ := hs.ready t r seen hlooked
      exact ⟨hfresh.of_view_eq hP (hP.drift d s.shared), howner⟩

theorem replay_run (hP : Atomic P view apply) (shared : S) (events : List (Event T R J D)) :
    view (run (step P) (initial shared) events).shared =
      replay apply (run (step P) (initial shared) events).log (view shared) :=
  (invariant_run_of_step (fun s event => linear_step hP s event) (linear_initial shared)
    events).replayed

end ZeusLe.Library.Snapshot
