import Mathlib.Algebra.Order.Group.Nat

/-! Little-endian words in byte lists. -/

namespace ZeusLe.Library.LittleEndian

def putLe16 (v : UInt16) : List UInt8 :=
  [v.toUInt8, (v >>> 8).toUInt8]

def putLe32 (v : UInt32) : List UInt8 :=
  [v.toUInt8, (v >>> 8).toUInt8, (v >>> 16).toUInt8, (v >>> 24).toUInt8]

@[simp] theorem length_putLe32 (v : UInt32) : (putLe32 v).length = 4 :=
  rfl

def getLe16 (b0 b1 : UInt8) : UInt16 :=
  UInt16.ofNat (b0.toNat + 2 ^ 8 * b1.toNat)

def getLe32 (b0 b1 b2 b3 : UInt8) : UInt32 :=
  UInt32.ofNat (b0.toNat + 2 ^ 8 * b1.toNat + 2 ^ 16 * b2.toNat + 2 ^ 24 * b3.toNat)

theorem getLe16_putLe16 (v : UInt16) : getLe16 v.toUInt8 (v >>> 8).toUInt8 = v := by
  have hv := v.toNat_lt
  have h1 : (v >>> 8).toNat = v.toNat / 2 ^ 8 := by
    rw [UInt16.toNat_shiftRight, Nat.shiftRight_eq_div_pow]
    rfl
  rw [← UInt16.toNat_inj, getLe16, UInt16.toNat_ofNat', UInt16.toNat_toUInt8,
    UInt16.toNat_toUInt8, h1]
  omega

theorem getLe32_putLe32 (v : UInt32) :
    getLe32 v.toUInt8 (v >>> 8).toUInt8 (v >>> 16).toUInt8 (v >>> 24).toUInt8 = v := by
  have hv := v.toNat_lt
  have h1 : (v >>> 8).toNat = v.toNat / 2 ^ 8 := by
    rw [UInt32.toNat_shiftRight, Nat.shiftRight_eq_div_pow]
    rfl
  have h2 : (v >>> 16).toNat = v.toNat / 2 ^ 16 := by
    rw [UInt32.toNat_shiftRight, Nat.shiftRight_eq_div_pow]
    rfl
  have h3 : (v >>> 24).toNat = v.toNat / 2 ^ 24 := by
    rw [UInt32.toNat_shiftRight, Nat.shiftRight_eq_div_pow]
    rfl
  rw [← UInt32.toNat_inj, getLe32, UInt32.toNat_ofNat', UInt32.toNat_toUInt8,
    UInt32.toNat_toUInt8, UInt32.toNat_toUInt8, UInt32.toNat_toUInt8, h1, h2, h3]
  omega

theorem putLe16_getLe16 (b0 b1 : UInt8) : putLe16 (getLe16 b0 b1) = [b0, b1] := by
  have h0 := b0.toNat_lt
  have h1 := b1.toNat_lt
  have hv : (getLe16 b0 b1).toNat = b0.toNat + 2 ^ 8 * b1.toNat := by
    rw [getLe16, UInt16.toNat_ofNat_of_lt']
    change _ < 2 ^ 16
    omega
  simp only [putLe16, List.cons.injEq, and_true, ← UInt8.toNat_inj, UInt16.toNat_toUInt8,
    UInt16.toNat_shiftRight, Nat.shiftRight_eq_div_pow, hv, UInt16.reduceToNat, Nat.reduceMod]
  omega

theorem putLe32_getLe32 (b0 b1 b2 b3 : UInt8) :
    putLe32 (getLe32 b0 b1 b2 b3) = [b0, b1, b2, b3] := by
  have h0 := b0.toNat_lt
  have h1 := b1.toNat_lt
  have h2 := b2.toNat_lt
  have h3 := b3.toNat_lt
  have hv : (getLe32 b0 b1 b2 b3).toNat =
      b0.toNat + 2 ^ 8 * b1.toNat + 2 ^ 16 * b2.toNat + 2 ^ 24 * b3.toNat := by
    rw [getLe32, UInt32.toNat_ofNat_of_lt']
    change _ < 2 ^ 32
    omega
  simp only [putLe32, List.cons.injEq, and_true, ← UInt8.toNat_inj, UInt32.toNat_toUInt8,
    UInt32.toNat_shiftRight, Nat.shiftRight_eq_div_pow, hv, UInt32.reduceToNat, Nat.reduceMod]
  omega

end ZeusLe.Library.LittleEndian
