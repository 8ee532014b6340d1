import Mathlib.Algebra.Group.Nat.Defs
import ZeusLe.Library.BitField

/-!
Several fields in one register: what a read-modify-write of a field changes, and
what the other fields are afterwards.
-/

namespace ZeusLe.Library.Fields

open ZeusLe.Library.BitField

variable {w : Nat}

/-- `GENMASK`: the bits from `lo` to `hi`. -/
def genmask (hi lo : Nat) : BitVec w :=
  (BitVec.allOnes (hi + 1 - lo)).setWidth w <<< lo

/-- The bits of the mask become those of `value`. -/
def update (mask value old : BitVec w) : BitVec w :=
  old &&& ~~~mask ||| value &&& mask

theorem getLsbD_genmask (hi lo i : Nat) :
    (genmask hi lo : BitVec w).getLsbD i = decide (i < w ∧ lo ≤ i ∧ i ≤ hi) := by
  simp only [genmask, BitVec.getLsbD_shiftLeft, BitVec.getLsbD_setWidth, BitVec.getLsbD_allOnes]
  rw [Bool.eq_iff_iff]
  simp only [Bool.and_eq_true, Bool.not_eq_true', decide_eq_true_eq, decide_eq_false_iff_not]
  omega

theorem genmask_and_genmask {hi lo hi' lo' : Nat} (hapart : hi < lo') :
    (genmask hi lo : BitVec w) &&& genmask hi' lo' = 0 := by
  apply BitVec.eq_of_getLsbD_eq
  intro i _
  rw [BitVec.getLsbD_and, getLsbD_genmask, getLsbD_genmask, ← Bool.decide_and, BitVec.ofNat_eq_ofNat,
    BitVec.getLsbD_zero, decide_eq_false_iff_not]
  omega

theorem lsbGet_genmask {hi lo : Nat} (hlo : lo ≤ hi) :
    lsbGet (genmask hi lo : BitVec w) = BitVec.twoPow w lo := by
  apply BitVec.eq_of_getLsbD_eq
  intro i hi'
  rw [Bool.eq_iff_iff, getLsbD_lsbGet, getLsbD_genmask, BitVec.getLsbD_twoPow, decide_eq_true_eq,
    Bool.and_eq_true, decide_eq_true_eq, decide_eq_true_eq]
  constructor
  · rintro ⟨⟨-, hge, hle⟩, hlower⟩
    refine ⟨by omega, ?_⟩
    rcases Nat.lt_or_ge lo i with hlt | hge'
    · have hlow := hlower lo hlt
      rw [getLsbD_genmask, decide_eq_false_iff_not] at hlow
      omega
    · omega
  · rintro ⟨-, rfl⟩
    refine ⟨⟨hi', Nat.le_refl lo, hlo⟩, ?_⟩
    intro j hj
    rw [getLsbD_genmask, decide_eq_false_iff_not]
    omega

theorem fieldPrep_genmask {hi lo : Nat} (hlo : lo ≤ hi) (value : BitVec w) :
    fieldPrep (genmask hi lo) value = value <<< lo &&& genmask hi lo := by
  rw [fieldPrep, lsbGet_genmask hlo, BitVec.mul_twoPow_eq_shiftLeft]

theorem fieldGet_genmask {hi lo : Nat} (hlo : lo ≤ hi) (hhi : hi < w) (value : BitVec w) :
    fieldGet (genmask hi lo) value = some ((value &&& genmask hi lo) >>> lo) := by
  have hne : lsbGet (genmask hi lo : BitVec w) ≠ 0 := by
    rw [ne_eq, lsbGet_eq_zero_iff]
    intro hzero
    have hbit := congrArg (fun mask : BitVec w => mask.getLsbD lo) hzero
    simp only [getLsbD_genmask, BitVec.ofNat_eq_ofNat, BitVec.getLsbD_zero,
      decide_eq_false_iff_not] at hbit
    omega
  rw [fieldGet, if_neg hne, lsbGet_genmask hlo, BitVec.udiv_twoPow_eq_of_lt (by omega)]

theorem fieldGet_fieldPrep_or {hi lo : Nat} (hlo : lo ≤ hi) (hhi : hi < w) {value : BitVec w}
    (hvalue : value.toNat < 2 ^ (hi + 1 - lo)) {rest : BitVec w}
    (hrest : rest &&& genmask hi lo = 0) :
    fieldGet (genmask hi lo) (fieldPrep (genmask hi lo) value ||| rest) = some value := by
  rw [fieldGet_genmask hlo hhi, fieldPrep_genmask hlo, BitVec.and_or_distrib_right, hrest]
  congr 1
  apply BitVec.eq_of_getLsbD_eq
  intro i _
  have hbit : value.getLsbD i = true → lo + i ≤ hi := by
    intro hset
    rcases Nat.lt_or_ge hi (lo + i) with hlt | hle
    · rw [BitVec.getLsbD, Nat.testBit_lt_two_pow] at hset
      · cases hset
      · exact Nat.lt_of_lt_of_le hvalue (Nat.pow_le_pow_right (by decide) (by omega))
    · exact hle
  simp only [BitVec.ofNat_eq_ofNat, BitVec.or_zero, BitVec.getLsbD_ushiftRight,
    BitVec.getLsbD_and, BitVec.getLsbD_shiftLeft, getLsbD_genmask, Nat.add_sub_cancel_left]
  rw [Bool.eq_iff_iff]
  simp only [Bool.and_eq_true, decide_eq_true_eq, Bool.not_eq_true', decide_eq_false_iff_not]
  constructor
  · rintro ⟨⟨⟨-, hset⟩, -⟩, -⟩
    exact hset
  · intro hset
    have hle := hbit hset
    exact ⟨⟨⟨⟨by omega, by omega⟩, hset⟩, by omega, by omega, hle⟩, by omega, by omega, hle⟩

theorem fieldGet_fieldPrep {hi lo : Nat} (hlo : lo ≤ hi) (hhi : hi < w) {value : BitVec w}
    (hvalue : value.toNat < 2 ^ (hi + 1 - lo)) :
    fieldGet (genmask hi lo) (fieldPrep (genmask hi lo) value) = some value := by
  have hget := fieldGet_fieldPrep_or hlo hhi hvalue (BitVec.zero_and (x := genmask hi lo))
  rwa [BitVec.or_zero] at hget

theorem fieldPrep_and_of_disjoint {mask mask' : BitVec w} (hdisjoint : mask &&& mask' = 0)
    (value : BitVec w) : fieldPrep mask value &&& mask' = 0 := by
  rw [fieldPrep, BitVec.and_assoc, hdisjoint]
  exact BitVec.and_zero

theorem fieldPrep_and_mask (mask value : BitVec w) :
    fieldPrep mask value &&& mask = fieldPrep mask value := by
  rw [fieldPrep, BitVec.and_assoc, BitVec.and_self]

theorem setWidth_fieldPrep {v : Nat} (hw : w ≤ v) (mask value : BitVec v) :
    (fieldPrep mask value).setWidth w = fieldPrep (mask.setWidth w) (value.setWidth w) := by
  rw [fieldPrep, fieldPrep, lsbGet, lsbGet, BitVec.setWidth_and, BitVec.setWidth_mul _ _ hw,
    BitVec.setWidth_and, BitVec.setWidth_neg_of_le hw]

theorem fieldGet_congr {mask x y : BitVec w} (hbits : x &&& mask = y &&& mask) :
    fieldGet mask x = fieldGet mask y := by
  rw [fieldGet, fieldGet, hbits]

theorem getLsbD_update (mask value old : BitVec w) (i : Nat) :
    (update mask value old).getLsbD i =
      if mask.getLsbD i then value.getLsbD i else old.getLsbD i := by
  simp only [update, BitVec.getLsbD_and, BitVec.getLsbD_or, BitVec.getLsbD_not]
  cases hmask : mask.getLsbD i
  · rcases Nat.lt_or_ge i w with hlt | hge
    · simp [hlt]
    · simp [BitVec.getLsbD_of_ge, hge]
  · simp

theorem update_and (mask value old : BitVec w) :
    update mask value old &&& mask = value &&& mask := by
  apply BitVec.eq_of_getLsbD_eq
  intro i _
  rw [BitVec.getLsbD_and, BitVec.getLsbD_and, getLsbD_update]
  cases mask.getLsbD i <;> simp

theorem update_and_of_disjoint {mask mask' : BitVec w} (hdisjoint : mask &&& mask' = 0)
    (value old : BitVec w) : update mask value old &&& mask' = old &&& mask' := by
  apply BitVec.eq_of_getLsbD_eq
  intro i _
  have hbit := congrArg (fun x : BitVec w => x.getLsbD i) hdisjoint
  simp only [BitVec.getLsbD_and, BitVec.ofNat_eq_ofNat, BitVec.getLsbD_zero] at hbit
  rw [BitVec.getLsbD_and, BitVec.getLsbD_and, getLsbD_update]
  cases hmask : mask.getLsbD i
  · simp
  · have hclear : mask'.getLsbD i = false := by simpa [hmask] using hbit
    simp [hclear]

end ZeusLe.Library.Fields
