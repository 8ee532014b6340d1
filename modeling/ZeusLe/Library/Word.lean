import Mathlib.Data.Nat.Basic
import Mathlib.Algebra.Order.Group.Nat

/-!
Words as C code uses them: counters that wrap, serial-number distance, rounded
division and rounding down, with their meaning over the natural numbers.
-/

namespace ZeusLe.Library.Word

/-- The signed distance from `b` to `a`, cut off below at zero. -/
def ahead (a b : UInt32) : UInt32 :=
  let d := (a - b).toInt32
  (if d < 0 then 0 else d).toUInt32

/-- Division rounded to the closest integer, a tie rounded up. -/
def divRoundClosest (n d : UInt32) : UInt32 :=
  (n + d / 2) / d

def roundDown (x align : UInt32) : UInt32 :=
  x / align * align

def clamp (x low high : UInt32) : UInt32 :=
  if x ≤ low then low else if x < high then x else high

theorem uint8_ofNat_eq_iff (m n : Nat) :
    UInt8.ofNat m = UInt8.ofNat n ↔ m % 256 = n % 256 := by
  rw [← UInt8.toNat_inj]
  simp only [UInt8.toNat_ofNat']

theorem uint16_ofNat_eq_iff (m n : Nat) :
    UInt16.ofNat m = UInt16.ofNat n ↔ m % 65536 = n % 65536 := by
  rw [← UInt16.toNat_inj]
  simp only [UInt16.toNat_ofNat']

theorem add_ofNat_inj {start : UInt32} {j k : Nat} (hj : j < 2 ^ 32) (hk : k < 2 ^ 32) :
    start + UInt32.ofNat j = start + UInt32.ofNat k ↔ j = k := by
  constructor
  · intro heq
    have hmod := congrArg UInt32.toNat (UInt32.add_right_inj start |>.mp heq)
    rwa [UInt32.toNat_ofNat_of_lt' hj, UInt32.toNat_ofNat_of_lt' hk] at hmod
  · intro heq
    rw [heq]

theorem sub_add_ofNat {start : UInt32} {j i : Nat} (hji : j ≤ i) :
    start + UInt32.ofNat i - (start + UInt32.ofNat j) = UInt32.ofNat (i - j) := by
  obtain ⟨m, rfl⟩ := Nat.exists_eq_add_of_le hji
  rw [Nat.add_sub_cancel_left, UInt32.ofNat_add, ← UInt32.add_assoc, UInt32.add_comm _ (.ofNat m),
    UInt32.add_sub_cancel]

theorem ofInt_natCast (n : Nat) : UInt32.ofInt n = UInt32.ofNat n := by
  have hmod : ((n : Int) % 2 ^ 32).toNat = n % 2 ^ 32 := by omega
  rw [UInt32.ofInt, hmod]
  exact UInt32.ofNat_mod_size

theorem toNat_clamp {low high : UInt32} (h : low ≤ high) (x : UInt32) :
    (clamp x low high).toNat = max low.toNat (min x.toNat high.toNat) := by
  rw [UInt32.le_iff_toNat_le] at h
  simp only [clamp, UInt32.le_iff_toNat_le, UInt32.lt_iff_toNat_lt]
  split
  · omega
  · split <;> omega

theorem toInt_toInt32 {d : UInt32} (h : d.toNat < 2 ^ 31) : d.toInt32.toInt = d.toNat := by
  rw [← Int32.toInt_toBitVec, UInt32.toBitVec_toInt32, BitVec.toInt_eq_toNat_cond]
  simp only [UInt32.toNat_toBitVec]
  rw [if_pos (by omega)]

theorem toInt32_neg_iff (d : UInt32) : d.toInt32 < 0 ↔ 2 ^ 31 ≤ d.toNat := by
  rw [Int32.lt_iff_toInt_lt, ← Int32.toInt_toBitVec, UInt32.toBitVec_toInt32,
    BitVec.toInt_eq_toNat_cond]
  have hd : d.toNat < 2 ^ 32 := d.toNat_lt
  simp only [UInt32.toNat_toBitVec, Int32.toInt_zero]
  split <;> omega

theorem toNat_ahead (a b : UInt32) :
    (ahead a b).toNat = if (a - b).toNat < 2 ^ 31 then (a - b).toNat else 0 := by
  simp only [ahead]
  by_cases h : (a - b).toNat < 2 ^ 31
  · have hneg : ¬ (a - b).toInt32 < 0 := by
      rw [toInt32_neg_iff]
      omega
    rw [if_neg hneg, if_pos h, UInt32.toUInt32_toInt32]
  · have hneg : (a - b).toInt32 < 0 := by
      rw [toInt32_neg_iff]
      omega
    rw [if_pos hneg, if_neg h]
    rfl

theorem toNat_ahead_add {a b d : UInt32} (h : d ≤ ahead a b) :
    (ahead a (b + d)).toNat = (ahead a b).toNat - d.toNat := by
  have hsub : a - (b + d) = a - b - d := by
    rw [← UInt32.toBitVec_inj]
    simp only [UInt32.toBitVec_sub, UInt32.toBitVec_add]
    bv_omega
  rw [UInt32.le_iff_toNat_le, toNat_ahead] at h
  rw [toNat_ahead, toNat_ahead, hsub]
  by_cases hahead : (a - b).toNat < 2 ^ 31
  · rw [if_pos hahead] at h ⊢
    rw [UInt32.toNat_sub_of_le _ _ (UInt32.le_iff_toNat_le.mpr h), if_pos (by omega)]
  · rw [if_neg hahead] at h ⊢
    have hzero : d = 0 := UInt32.toNat_inj.mp (Nat.le_zero.mp h)
    rw [hzero, UInt32.sub_zero, if_neg hahead]
    rfl

theorem toNat_divRoundClosest {n d : UInt32} (h : n.toNat + d.toNat / 2 < 2 ^ 32) :
    (divRoundClosest n d).toNat = (n.toNat + d.toNat / 2) / d.toNat := by
  simp only [divRoundClosest, UInt32.toNat_div, UInt32.toNat_add]
  rw [Nat.mod_eq_of_lt (by simpa using h)]
  rfl

theorem divRoundClosest_zero (d : UInt32) : divRoundClosest 0 d = 0 := by
  rw [← UInt32.toNat_inj, toNat_divRoundClosest]
  · simp only [UInt32.toNat_zero, Nat.zero_add]
    rcases Nat.eq_zero_or_pos d.toNat with hd | hd
    · simp [hd]
    · exact Nat.div_eq_of_lt (Nat.div_lt_self hd (by decide))
  · have hd : d.toNat < 2 ^ 32 := d.toNat_lt
    simp only [UInt32.toNat_zero]
    omega

theorem divRoundClosest_mul_le {k m d : UInt32} (hk : k ≤ d) :
    divRoundClosest (k * m) d ≤ m := by
  rw [UInt32.le_iff_toNat_le] at hk ⊢
  simp only [divRoundClosest, UInt32.toNat_div, UInt32.toNat_add, UInt32.toNat_mul]
  rcases Nat.eq_zero_or_pos d.toNat with hd | hd
  · simp [hd]
  · have hwrap : (k.toNat * m.toNat % 2 ^ 32 + d.toNat / UInt32.toNat 2) % 2 ^ 32 ≤
        d.toNat * m.toNat + d.toNat / 2 := by
      refine (Nat.mod_le _ _).trans (Nat.add_le_add ?_ le_rfl)
      exact (Nat.mod_le _ _).trans (Nat.mul_le_mul_right _ hk)
    calc
      _ ≤ (d.toNat * m.toNat + d.toNat / 2) / d.toNat := Nat.div_le_div_right hwrap
      _ = m.toNat + d.toNat / 2 / d.toNat := Nat.mul_add_div hd _ _
      _ = m.toNat := by
        rw [Nat.div_eq_of_lt (Nat.div_lt_self hd (by decide))]
        rfl

/-- `q` is an integer closest to `n / d`. -/
def Nearest (n d q : Nat) : Prop :=
  2 * n ≤ 2 * (d * q) + d ∧ 2 * (d * q) ≤ 2 * n + d

instance (n d q : Nat) : Decidable (Nearest n d q) :=
  inferInstanceAs (Decidable (_ ∧ _))

theorem nearest_div {n d : Nat} (hd : 0 < d) : Nearest n d ((n + d / 2) / d) := by
  have hdiv := Nat.div_add_mod (n + d / 2) d
  have hmod := Nat.mod_lt (n + d / 2) hd
  constructor <;> omega

theorem not_nearest_of_wrap {n d : Nat} (hd : d < 2 ^ 32) (hwrap : 2 ^ 32 ≤ n + d / 2) :
    ¬ Nearest n d ((n + d / 2) % 2 ^ 32 / d) := by
  rintro ⟨hle, -⟩
  have hmul := Nat.mul_div_le ((n + d / 2) % 2 ^ 32) d
  omega

/-- The product of two words divided by a third one is rounded to the closest
integer exactly when the numerator does not wrap. -/
theorem nearest_mul_iff {k m d : UInt32} (hd : d ≠ 0) :
    Nearest (k.toNat * m.toNat) d.toNat (divRoundClosest (k * m) d).toNat ↔
      k.toNat * m.toNat + d.toNat / 2 < 2 ^ 32 := by
  have hpos : 0 < d.toNat := Nat.pos_of_ne_zero fun h => hd (UInt32.toNat_inj.mp h)
  have hquotient : (divRoundClosest (k * m) d).toNat =
      (k.toNat * m.toNat + d.toNat / 2) % 2 ^ 32 / d.toNat := by
    simp only [divRoundClosest, UInt32.toNat_div, UInt32.toNat_add, UInt32.toNat_mul]
    rw [Nat.mod_add_mod]
    rfl
  rw [hquotient]
  constructor
  · intro hnearest
    apply Nat.lt_of_not_le
    intro hwrap
    exact not_nearest_of_wrap d.toNat_lt hwrap hnearest
  · intro hfit
    rw [Nat.mod_eq_of_lt hfit]
    exact nearest_div hpos

theorem divRoundClosest_mono {k l m d : UInt32} (h : k ≤ l)
    (hfit : l.toNat * m.toNat + d.toNat / 2 < 2 ^ 32) :
    divRoundClosest (k * m) d ≤ divRoundClosest (l * m) d := by
  rw [UInt32.le_iff_toNat_le] at h
  have hle : k.toNat * m.toNat ≤ l.toNat * m.toNat := Nat.mul_le_mul_right _ h
  have hk : (k * m).toNat = k.toNat * m.toNat := by
    rw [UInt32.toNat_mul]
    exact Nat.mod_eq_of_lt (by omega)
  have hl : (l * m).toNat = l.toNat * m.toNat := by
    rw [UInt32.toNat_mul]
    exact Nat.mod_eq_of_lt (by omega)
  rw [UInt32.le_iff_toNat_le, toNat_divRoundClosest (by omega), toNat_divRoundClosest (by omega),
    hk, hl]
  exact Nat.div_le_div_right (by omega)

end ZeusLe.Library.Word
