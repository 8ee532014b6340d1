import ZeusLe.Library.Run

/-!
Lists that grow along a run: a step appends what its input brings, or loses some
of what is on its way.
-/

namespace ZeusLe.Library.Log

open ZeusLe.Library.Run

universe u v w

variable {S : Type u} {I : Type v} {α : Type w} {step : S → I → S} {log : S → List α}
  {new : I → List α}

theorem run_sublist (hstep : ∀ s i, (log (step s i)).Sublist (log s ++ new i)) (s : S)
    (inputs : List I) :
    (log (run step s inputs)).Sublist (log s ++ inputs.flatMap new) := by
  induction inputs generalizing s with
  | nil => simp
  | cons i inputs ih =>
      rw [run_cons, List.flatMap_cons, ← List.append_assoc]
      exact (ih (step s i)).trans ((hstep s i).append_right _)

theorem run_eq_iff (hstep : ∀ s i, (log (step s i)).Sublist (log s ++ new i)) (s : S)
    (inputs : List I) :
    log (run step s inputs) = log s ++ inputs.flatMap new ↔
      Along step (fun s i => log (step s i) = log s ++ new i) s inputs := by
  induction inputs generalizing s with
  | nil => simp
  | cons i inputs ih =>
      rw [run_cons, along_cons, List.flatMap_cons, ← List.append_assoc, ← ih]
      constructor
      · intro h
        have hlen := (run_sublist hstep (step s i) inputs).length_le
        have hfirst : log (step s i) = log s ++ new i := by
          apply (hstep s i).eq_of_length_le
          rw [h] at hlen
          simp only [List.length_append] at hlen ⊢
          omega
        exact ⟨hfirst, hfirst ▸ h⟩
      · rintro ⟨hfirst, hrest⟩
        rw [hrest, hfirst]

theorem run_eq (hstep : ∀ s i, log (step s i) = log s ++ new i) (s : S) (inputs : List I) :
    log (run step s inputs) = log s ++ inputs.flatMap new :=
  (run_eq_iff (fun s i => hstep s i ▸ List.Sublist.refl _) s inputs).mpr
    (along_of_forall (fun i _ s => hstep s i) s)

end ZeusLe.Library.Log
