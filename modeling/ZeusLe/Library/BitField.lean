import Mathlib.Data.Nat.Basic

/-!
Bit fields of C code: a mask stands for the bits of a field, whose lowest one
scales the value of the field.
-/

namespace ZeusLe.Library.BitField

variable {w : Nat}

/-- The lowest bit of a mask that is set. -/
def lsbGet (mask : BitVec w) : BitVec w :=
  mask &&& -mask

def fieldPrep (mask value : BitVec w) : BitVec w :=
  value * lsbGet mask &&& mask

/-- A division by zero has no result. -/
def fieldGet (mask value : BitVec w) : Option (BitVec w) :=
  if lsbGet mask = 0 then none else some ((value &&& mask) / lsbGet mask)

theorem getLsbD_lsbGet (mask : BitVec w) (i : Nat) :
    (lsbGet mask).getLsbD i = true ↔
      mask.getLsbD i = true ∧ ∀ j < i, mask.getLsbD j = false := by
  simp only [lsbGet, BitVec.getLsbD_and, BitVec.getLsbD_neg, Bool.and_eq_true]
  constructor
  · rintro ⟨hi, hneg⟩
    refine ⟨hi, ?_⟩
    intro j hj
    have hlt : i < w := BitVec.lt_of_getLsbD hi
    simp only [hi, hlt, decide_true, Bool.true_and, Bool.true_bne, Bool.not_eq_true',
      decide_eq_false_iff_not, not_exists, not_and, Bool.not_eq_true] at hneg
    exact hneg j hj
  · rintro ⟨hi, hlower⟩
    refine ⟨hi, ?_⟩
    have hnone : ¬ ∃ j < i, mask.getLsbD j = true := by
      rintro ⟨j, hj, hset⟩
      rw [hlower j hj] at hset
      cases hset
    simp [hi, hnone]

theorem lsbGet_eq_zero_iff (mask : BitVec w) : lsbGet mask = 0 ↔ mask = 0 := by
  constructor
  · intro hzero
    apply BitVec.eq_of_getLsbD_eq
    intro i _
    change mask.getLsbD i = (0#w).getLsbD i
    rw [BitVec.getLsbD_zero]
    induction i using Nat.strongRecOn with
    | ind i ih =>
        have hnot : ¬ (lsbGet mask).getLsbD i = true := by
          rw [hzero]
          simp
        rw [getLsbD_lsbGet] at hnot
        rcases Bool.eq_false_or_eq_true (mask.getLsbD i) with hi | hi
        · exact absurd ⟨hi, fun j hj => ih j hj (by omega)⟩ hnot
        · exact hi
  · intro hzero
    rw [hzero]
    exact BitVec.zero_and

theorem lsbGet_eq_one_iff (hw : 0 < w) (mask : BitVec w) :
    lsbGet mask = 1 ↔ mask.getLsbD 0 = true := by
  have hbit : (lsbGet mask).getLsbD 0 = true ↔ mask.getLsbD 0 = true := by
    rw [getLsbD_lsbGet]
    exact and_iff_left fun j hj => absurd hj (Nat.not_lt_zero j)
  constructor
  · intro hone
    rw [← hbit, hone]
    simp [hw]
  · intro hodd
    apply BitVec.eq_of_getLsbD_eq
    intro i hi
    cases i with
    | zero =>
        rw [hbit.mpr hodd]
        simp [hw]
    | succ i =>
        have hnot : ¬ (lsbGet mask).getLsbD (i + 1) = true := by
          rw [getLsbD_lsbGet]
          rintro ⟨-, hlower⟩
          rw [hlower 0 (Nat.succ_pos i)] at hodd
          cases hodd
        simpa using hnot

theorem fieldGet_eq_and_iff (hw : 0 < w) (mask value : BitVec w) :
    fieldGet mask value = some (value &&& mask) ↔
      mask.getLsbD 0 = true ∨ (mask ≠ 0 ∧ value &&& mask = 0) := by
  have hdiv : (value &&& mask) / lsbGet mask = value &&& mask ↔
      value &&& mask = 0 ∨ lsbGet mask = 1 := by
    have hone : (1 : BitVec w).toNat = 1 := by
      simp only [BitVec.ofNat_eq_ofNat, BitVec.toNat_ofNat]
      exact Nat.mod_eq_of_lt (Nat.one_lt_two_pow (by omega))
    rw [← BitVec.toNat_inj, BitVec.toNat_udiv, Nat.div_eq_self, ← BitVec.toNat_inj,
      ← BitVec.toNat_inj, hone]
    rfl
  rw [fieldGet]
  rcases Classical.em (lsbGet mask = 0) with hzero | hne
  · rw [if_pos hzero]
    rw [lsbGet_eq_zero_iff] at hzero
    simp [hzero]
  · have hmask : mask ≠ 0 := fun h => hne ((lsbGet_eq_zero_iff mask).mpr h)
    rw [if_neg hne, Option.some.injEq, hdiv, lsbGet_eq_one_iff hw]
    constructor
    · rintro (hclear | hodd)
      · exact Or.inr ⟨hmask, hclear⟩
      · exact Or.inl hodd
    · rintro (hodd | ⟨-, hclear⟩)
      · exact Or.inr hodd
      · exact Or.inl hclear

end ZeusLe.Library.BitField
