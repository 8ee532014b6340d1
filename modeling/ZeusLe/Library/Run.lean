import Mathlib.Data.List.Basic

/-!
Finite runs of a deterministic system: a step function on states, driven by a
list of inputs. Everything the environment decides is part of an input.
-/

namespace ZeusLe.Library.Run

universe u v w

variable {S : Type u} {I : Type v}

def run (step : S → I → S) (s : S) (inputs : List I) : S :=
  inputs.foldl step s

@[simp] theorem run_nil (step : S → I → S) (s : S) : run step s [] = s :=
  rfl

@[simp] theorem run_cons (step : S → I → S) (s : S) (i : I) (inputs : List I) :
    run step s (i :: inputs) = run step (step s i) inputs :=
  rfl

theorem run_append (step : S → I → S) (s : S) (first second : List I) :
    run step s (first ++ second) = run step (run step s first) second :=
  List.foldl_append

/-- The condition `C` holds of every state of the run together with the input
that is processed in it. -/
def Along (step : S → I → S) (C : S → I → Prop) : S → List I → Prop
  | _, [] => True
  | s, i :: inputs => C s i ∧ Along step C (step s i) inputs

@[simp] theorem along_nil (step : S → I → S) (C : S → I → Prop) (s : S) :
    Along step C s [] :=
  trivial

@[simp] theorem along_cons (step : S → I → S) (C : S → I → Prop) (s : S) (i : I)
    (inputs : List I) :
    Along step C s (i :: inputs) ↔ C s i ∧ Along step C (step s i) inputs :=
  Iff.rfl

instance decidableAlong (step : S → I → S) (C : S → I → Prop) [∀ s i, Decidable (C s i)] :
    (s : S) → (inputs : List I) → Decidable (Along step C s inputs)
  | _, [] => isTrue trivial
  | s, i :: inputs =>
      have := decidableAlong step C (step s i) inputs
      inferInstanceAs (Decidable (C s i ∧ Along step C (step s i) inputs))

theorem along_append (step : S → I → S) (C : S → I → Prop) (s : S)
    (first second : List I) :
    Along step C s (first ++ second) ↔
      Along step C s first ∧ Along step C (run step s first) second := by
  induction first generalizing s with
  | nil => simp
  | cons i first ih =>
      simp only [List.cons_append, along_cons, run_cons, ih]
      exact and_assoc.symm

theorem along_of_forall {step : S → I → S} {C : S → I → Prop} {inputs : List I}
    (h : ∀ i ∈ inputs, ∀ s, C s i) (s : S) : Along step C s inputs := by
  induction inputs generalizing s with
  | nil => trivial
  | cons i inputs ih =>
      exact ⟨h i (by simp) s, ih (fun j hj => h j (by simp [hj])) _⟩

theorem along_congr {step step' : S → I → S} {C : S → I → Prop} {inputs : List I}
    (h : ∀ i ∈ inputs, ∀ s, step s i = step' s i) (s : S) :
    Along step C s inputs ↔ Along step' C s inputs := by
  induction inputs generalizing s with
  | nil => exact Iff.rfl
  | cons i inputs ih =>
      rw [along_cons, along_cons, h i List.mem_cons_self s]
      exact and_congr_right fun _ => ih (fun j hj => h j (List.mem_cons_of_mem i hj)) _

theorem invariant_run {step : S → I → S} {C : S → I → Prop} {P : S → Prop}
    (hstep : ∀ s i, P s → C s i → P (step s i)) {s : S} {inputs : List I}
    (hs : P s) (hC : Along step C s inputs) : P (run step s inputs) := by
  induction inputs generalizing s with
  | nil => exact hs
  | cons i inputs ih =>
      obtain ⟨hi, hrest⟩ := hC
      exact ih (hstep s i hs hi) hrest

theorem invariant_run_of_step {step : S → I → S} {P : S → Prop}
    (hstep : ∀ s i, P s → P (step s i)) {s : S} (hs : P s) (inputs : List I) :
    P (run step s inputs) := by
  induction inputs generalizing s with
  | nil => exact hs
  | cons i inputs ih => exact ih (hstep s i hs)

theorem along_of_invariant {step : S → I → S} {C D : S → I → Prop} {P : S → Prop}
    (hstep : ∀ s i, P s → C s i → P (step s i))
    (hD : ∀ s i, P s → C s i → D s i) {s : S} {inputs : List I}
    (hs : P s) (hC : Along step C s inputs) : Along step D s inputs := by
  induction inputs generalizing s with
  | nil => trivial
  | cons i inputs ih =>
      obtain ⟨hi, hrest⟩ := hC
      exact ⟨hD s i hs hi, ih (hstep s i hs hi) hrest⟩

theorem along_of_step_invariant {step : S → I → S} {D : S → I → Prop} {P : S → Prop}
    (hstep : ∀ s i, P s → P (step s i)) (hD : ∀ s i, P s → D s i) {s : S} (hs : P s)
    (inputs : List I) : Along step D s inputs := by
  induction inputs generalizing s with
  | nil => trivial
  | cons i inputs ih => exact ⟨hD s i hs, ih (hstep s i hs)⟩

theorem run_iff_along {step : S → I → S} {C : S → I → Prop} {P Q : S → Prop}
    (hstep : ∀ s i, P s → P (step s i))
    (hiff : ∀ s i, P s → (Q (step s i) ↔ Q s ∧ C s i)) {s : S} {inputs : List I}
    (hs : P s) : Q (run step s inputs) ↔ Q s ∧ Along step C s inputs := by
  induction inputs generalizing s with
  | nil => simp
  | cons i inputs ih =>
      rw [run_cons, ih (hstep s i hs), hiff s i hs, along_cons, and_assoc]

/-- Two properties of steps that agree in every state of an invariant, which the
second one keeps, hold along the same runs. -/
theorem along_iff_of_invariant {step : S → I → S} {C D : S → I → Prop} {P : S → Prop}
    (hiff : ∀ s i, P s → (D s i ↔ C s i)) (hstep : ∀ s i, P s → C s i → P (step s i))
    {s : S} {inputs : List I} (hs : P s) :
    Along step D s inputs ↔ Along step C s inputs := by
  induction inputs generalizing s with
  | nil => exact Iff.rfl
  | cons i inputs ih =>
      simp only [along_cons]
      constructor
      · rintro ⟨hi, hrest⟩
        have hC := (hiff s i hs).mp hi
        exact ⟨hC, (ih (hstep s i hs hC)).mp hrest⟩
      · rintro ⟨hi, hrest⟩
        exact ⟨(hiff s i hs).mpr hi, (ih (hstep s i hs hi)).mpr hrest⟩

theorem along_iff_of_forall {step : S → I → S} {C D : S → I → Prop}
    (hiff : ∀ s i, D s i ↔ C s i) (s : S) (inputs : List I) :
    Along step D s inputs ↔ Along step C s inputs := by
  induction inputs generalizing s with
  | nil => exact Iff.rfl
  | cons i inputs ih => exact and_congr (hiff s i) (ih (step s i))

/-- Every state that a run reaches has a property exactly when every step meets
the condition under which it keeps the property. -/
theorem along_after_iff {step : S → I → S} {C : S → I → Prop} {P : S → Prop}
    (hiff : ∀ s i, P s → (P (step s i) ↔ C s i)) {s : S} {inputs : List I} (hs : P s) :
    Along step (fun s i => P (step s i)) s inputs ↔ Along step C s inputs :=
  along_iff_of_invariant hiff (fun s i hs => (hiff s i hs).mpr) hs

/-- A forward simulation: related states stay related when the concrete system
takes a step and the abstract one takes the step its input stands for. -/
theorem simulation_run {T : Type w} {step : S → I → S} {C : S → I → Prop}
    {J : Type*} {abstractStep : T → J → T} {input : I → J} {R : S → T → Prop}
    (hstep : ∀ s t i, R s t → C s i → R (step s i) (abstractStep t (input i)))
    {s : S} {t : T} {inputs : List I} (hst : R s t) (hC : Along step C s inputs) :
    R (run step s inputs) (run abstractStep t (inputs.map input)) := by
  induction inputs generalizing s t with
  | nil => exact hst
  | cons i inputs ih =>
      obtain ⟨hi, hrest⟩ := hC
      exact ih (hstep s t i hst hi) hrest

theorem along_of_simulation {T : Type w} {J : Type*} {step : S → I → S}
    {C : S → I → Prop} {abstractStep : T → J → T} {D : T → J → Prop} {input : I → J}
    {R : S → T → Prop}
    (hstep : ∀ s t i, R s t → C s i → R (step s i) (abstractStep t (input i)))
    (hD : ∀ s t i, R s t → C s i → D t (input i)) {s : S} {t : T} {inputs : List I}
    (hst : R s t) (hC : Along step C s inputs) :
    Along abstractStep D t (inputs.map input) := by
  induction inputs generalizing s t with
  | nil => trivial
  | cons i inputs ih =>
      obtain ⟨hi, hrest⟩ := hC
      exact ⟨hD s t i hst hi, ih (hstep s t i hst hi) hrest⟩

theorem run_comap {T : Type w} {step : S → I → S} {step' : T → I → T} {f : T → S}
    (hf : ∀ t i, f (step' t i) = step (f t) i) (t : T) (inputs : List I) :
    f (run step' t inputs) = run step (f t) inputs := by
  induction inputs generalizing t with
  | nil => rfl
  | cons i inputs ih =>
      rw [run_cons, run_cons, ih, hf]

theorem along_comap {T : Type w} {step : S → I → S} {step' : T → I → T} {f : T → S}
    (hf : ∀ t i, f (step' t i) = step (f t) i) {C : S → I → Prop} (t : T) (inputs : List I) :
    Along step C (f t) inputs ↔ Along step' (fun t i => C (f t) i) t inputs := by
  induction inputs generalizing t with
  | nil => exact Iff.rfl
  | cons i inputs ih =>
      rw [along_cons, along_cons, ← hf, ih]

theorem along_and {step : S → I → S} {C D : S → I → Prop} {s : S} {inputs : List I}
    (hC : Along step C s inputs) (hD : Along step D s inputs) :
    Along step (fun s i => C s i ∧ D s i) s inputs := by
  induction inputs generalizing s with
  | nil => trivial
  | cons i inputs ih => exact ⟨⟨hC.1, hD.1⟩, ih hC.2 hD.2⟩

end ZeusLe.Library.Run
