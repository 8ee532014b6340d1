import Mathlib.Order.Lattice.Nat

/-!
Loops without a bound: a body that goes on with another state or ends with a
result, and when such a loop ends.
-/

namespace ZeusLe.Library.Loop

universe u v

variable {C : Type u} {R : Type v}

/-- The result of the loop, if it ends within `n` rounds. -/
def loop (body : C → C ⊕ R) : Nat → C → Option R
  | 0, _ => none
  | n + 1, c =>
      match body c with
      | .inl c => loop body n c
      | .inr r => some r

/-- The states at the beginning of the rounds. -/
inductive Reaches (body : C → C ⊕ R) : C → C → Prop where
  | refl (c : C) : Reaches body c c
  | head {c d e : C} (hround : body c = .inl d) (hrest : Reaches body d e) : Reaches body c e

def Ends (body : C → C ⊕ R) (c : C) : Prop :=
  ∃ n r, loop body n c = some r

variable {body : C → C ⊕ R}

theorem loop_next {c d : C} (h : body c = .inl d) (n : Nat) :
    loop body (n + 1) c = loop body n d := by
  rw [loop, h]

theorem loop_result {c : C} {r : R} (h : body c = .inr r) (n : Nat) :
    loop body (n + 1) c = some r := by
  rw [loop, h]

theorem ends_of_result {c : C} {r : R} (h : body c = .inr r) : Ends body c :=
  ⟨1, r, loop_result h 0⟩

theorem ends_iff_next {c d : C} (h : body c = .inl d) : Ends body c ↔ Ends body d := by
  constructor
  · rintro ⟨n, r, hr⟩
    cases n with
    | zero => cases hr
    | succ n => exact ⟨n, r, (loop_next h n).symm.trans hr⟩
  · rintro ⟨n, r, hr⟩
    exact ⟨n + 1, r, (loop_next h n).trans hr⟩

theorem loop_le {n n' : Nat} {c : C} {r : R} (hle : n ≤ n') (h : loop body n c = some r) :
    loop body n' c = some r := by
  induction n generalizing c n' with
  | zero => cases h
  | succ n ih =>
      obtain ⟨n', rfl⟩ : ∃ k, n' = k + 1 := ⟨n' - 1, by omega⟩
      cases hround : body c with
      | inl d =>
          rw [loop_next hround] at h ⊢
          exact ih (Nat.le_of_succ_le_succ hle) h
      | inr r' =>
          rw [loop_result hround] at h ⊢
          exact h

theorem loop_invariant {P : C → Prop} {Q : R → Prop}
    (hnext : ∀ c d, P c → body c = .inl d → P d) (hresult : ∀ c r, P c → body c = .inr r → Q r)
    {n : Nat} {c : C} {r : R} (hc : P c) (hr : loop body n c = some r) : Q r := by
  induction n generalizing c with
  | zero => cases hr
  | succ n ih =>
      cases hround : body c with
      | inl d => exact ih (hnext c d hc hround) ((loop_next hround n).symm.trans hr)
      | inr r' =>
          obtain rfl := Option.some.inj ((loop_result hround n).symm.trans hr)
          exact hresult c r' hc hround

theorem not_ends_of_stuck {P Stuck : C → Prop}
    (hnext : ∀ c d, P c → body c = .inl d → P d)
    (hstuck : ∀ c, P c → Stuck c → ∃ d, body c = .inl d ∧ Stuck d) {c : C} (hc : P c)
    (h : Stuck c) : ¬ Ends body c := by
  rintro ⟨n, r, hr⟩
  induction n generalizing c with
  | zero => cases hr
  | succ n ih =>
      obtain ⟨d, hround, hd⟩ := hstuck c hc h
      exact ih (hnext c d hc hround) hd ((loop_next hround n).symm.trans hr)

theorem ends_iff {P Stuck : C → Prop} {A : Type*} {r : A → A → Prop} (hwf : WellFounded r)
    (measure : C → A) (hnext : ∀ c d, P c → body c = .inl d → P d)
    (hstuck : ∀ c, P c → Stuck c → ∃ d, body c = .inl d ∧ Stuck d)
    (hless : ∀ c d, P c → ¬ Stuck c → body c = .inl d → r (measure d) (measure c))
    {c : C} (hc : P c) : Ends body c ↔ ∀ d, Reaches body c d → ¬ Stuck d := by
  constructor
  · intro hends d hreach
    induction hreach with
    | refl c => exact fun h => not_ends_of_stuck hnext hstuck hc h hends
    | head hround _ ih => exact ih (hnext _ _ hc hround) ((ends_iff_next hround).mp hends)
  · intro hnever
    have hall : ∀ a c, measure c = a → P c → (∀ d, Reaches body c d → ¬ Stuck d) →
        Ends body c := by
      intro a
      induction a using hwf.induction with
      | _ a ih =>
          rintro c rfl hc hnever
          cases hround : body c with
          | inr result => exact ends_of_result hround
          | inl d =>
              have hd := hless c d hc (hnever c (.refl c)) hround
              have hends := ih (measure d) hd d rfl (hnext c d hc hround)
                (fun e he => hnever e (.head hround he))
              exact (ends_iff_next hround).mpr hends
    exact hall _ c rfl hc hnever

section

variable {α : Type u}

def rest (results : Nat → α) : Nat → α :=
  fun n => results (n + 1)

/-- How many values come before the first one with `p`, or 0 when there is none. -/
noncomputable def waits (p : α → Prop) (results : Nat → α) : Nat :=
  sInf {n | p (results n)}

theorem waits_rest_lt {p : α → Prop} {results : Nat → α} (hfirst : ¬ p (results 0))
    (hsome : ∃ n, p (results n)) : waits p (rest results) < waits p results := by
  have hmem : p (results (waits p results)) := Nat.sInf_mem hsome
  cases hwaits : waits p results with
  | zero =>
      rw [hwaits] at hmem
      exact absurd hmem hfirst
  | succ n =>
      rw [hwaits] at hmem
      have hle : waits p (rest results) ≤ n := Nat.sInf_le hmem
      exact Nat.lt_succ_of_le hle

end

end ZeusLe.Library.Loop
