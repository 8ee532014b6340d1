import Mathlib.Algebra.Order.Group.Nat
import Mathlib.Logic.Function.Basic
import Mathlib.Order.Bounds.Basic
import ZeusLe.Library.BitField
import ZeusLe.Library.Word

/-!
The currents of the battery charger, `charger_bq2515x.c`: the charge current and
the input current limit as they are set, programmed and read back.
-/

namespace ZeusLe.ChargerCurrent

open ZeusLe.Library.BitField
open ZeusLe.Library.Word

abbrev Registers := UInt8 → UInt8

def ichgCtrlAddr : UInt8 := 0x13

def pchrgctrlAddr : UInt8 := 0x14

def pchrgctrlIchargeRange : UInt8 := 0x80

def ilimctrlAddr : UInt8 := 0x19

def ilimctrlIlim : BitVec 32 := 0x07

/-- A byte in an expression of `unsigned long`. -/
def promote (val : UInt8) : BitVec 32 :=
  val.toUInt32.toBitVec

theorem toNat_promote (val : UInt8) : (promote val).toNat = val.toNat :=
  rfl

/-! The accesses of `mfd_bq2515x.c`; a negative `io` is an access that fails. -/

def mfdRegReadBurst (io : Int) (regAddr : UInt8) (regs : Registers) : Except Int (Nat → UInt8) :=
  if io < 0 then .error io else .ok fun i => regs (regAddr + UInt8.ofNat i)

def mfdRegRead (io : Int) (regAddr : UInt8) (regs : Registers) : Except Int UInt8 :=
  (mfdRegReadBurst io regAddr regs).map fun buf => buf 0

def mfdRegWrite (io : Int) (regAddr value : UInt8) (regs : Registers) : Int × Registers :=
  if io < 0 then (io, regs) else (io, Function.update regs regAddr value)

def mfdRegWrite2 (io : Int) (regAddr value1 value2 : UInt8) (regs : Registers) :
    Int × Registers :=
  if io < 0 then (io, regs)
  else (io, Function.update (Function.update regs regAddr value1) (regAddr + 1) value2)

def chargeCurrentMinUa : UInt32 := 1250

def chargeCurrentMaxUa : UInt32 := 500000

def uaToIchg (currentUa : UInt32) : UInt8 × Bool :=
  let currentUa := clamp currentUa chargeCurrentMinUa chargeCurrentMaxUa
  if currentUa ≤ 318750 then ((currentUa / 1250).toUInt8, false)
  else ((currentUa / 2500).toUInt8, true)

def ichgToUa (ichg : UInt8) (ichgRange : Bool) : UInt32 :=
  if ichgRange then ichg.toUInt32 * 1250 else ichg.toUInt32 * 2500

/-- The results of the accesses of a setter and of the getter behind it. -/
structure ChargeIo where
  read : Int := 0
  write : Int := 0
  get : Int := 0

def setChargeCurrent (io : ChargeIo) (currentUa : UInt32) (regs : Registers) : Int × Registers :=
  let (ichg, ichargeRange) := uaToIchg currentUa
  match mfdRegRead io.read pchrgctrlAddr regs with
  | .error ret => (ret, regs)
  | .ok pchrgctrl =>
      let pchrgctrl :=
        if ichargeRange then pchrgctrl ||| pchrgctrlIchargeRange
        else pchrgctrl &&& ~~~pchrgctrlIchargeRange
      let (ret, regs) := mfdRegWrite2 io.write ichgCtrlAddr ichg pchrgctrl regs
      if ret < 0 then (ret, regs) else (0, regs)

def getChargeCurrent (io : Int) (regs : Registers) : Except Int UInt32 :=
  match mfdRegReadBurst io ichgCtrlAddr regs with
  | .error ret => .error ret
  | .ok rdBuf => .ok (ichgToUa (rdBuf 0) (rdBuf 1 &&& pchrgctrlIchargeRange != 0))

def inputCurrentMinMa : UInt32 := 50

def inputCurrentMaxMa : UInt32 := 600

def maToIlim (currentMa : UInt32) : UInt8 :=
  let currentMa := clamp currentMa inputCurrentMinMa inputCurrentMaxMa
  if currentMa < 175 then (currentMa / 50).toUInt8 else (currentMa / 100 + 1).toUInt8

def ilimToMa (ilim : UInt8) : UInt32 :=
  if ilim ≤ 0x2 then ilim.toUInt32 * 50 + 50 else ilim.toUInt32 * 100 - 100

def setInputCurrentLimit (io : Int) (inputCurrentUa : UInt32) (regs : Registers) :
    Int × Registers :=
  let ilim := maToIlim (inputCurrentUa / 1000)
  let field := fieldPrep ilimctrlIlim (promote ilim)
  let (ret, regs) := mfdRegWrite io ilimctrlAddr (UInt8.ofNat field.toNat) regs
  if ret < 0 then (ret, regs) else (0, regs)

/-- The register is handed to `FIELD_GET` as the mask. -/
def getInputCurrentLimit (io : Int) (regs : Registers) : Option (Except Int UInt32) :=
  match mfdRegRead io ilimctrlAddr regs with
  | .error ret => some (.error ret)
  | .ok val =>
      (fieldGet (promote val) ilimctrlIlim).map fun ilim =>
        .ok (ilimToMa (UInt8.ofNat ilim.toNat) * 1000)

/-- The request after it is clamped, in uA. -/
def clampedUa (currentUa : UInt32) : Nat :=
  max 1250 (min currentUa.toNat 500000)

def rangeSet (pchrgctrl : UInt8) : Bool :=
  pchrgctrl &&& pchrgctrlIchargeRange != 0

def stepUa (regs : Registers) : Nat :=
  if rangeSet (regs pchrgctrlAddr) then 2500 else 1250

def programmedUa (regs : Registers) : Nat :=
  (regs ichgCtrlAddr).toNat * stepUa regs

/-- The registers hold the largest current that does not exceed the request. -/
structure Programmed (currentUa : UInt32) (regs regs' : Registers) : Prop where
  le : programmedUa regs' ≤ clampedUa currentUa
  lt : clampedUa currentUa < programmedUa regs' + stepUa regs'
  fits : clampedUa currentUa / stepUa regs' < 256
  bits : regs' pchrgctrlAddr &&& ~~~pchrgctrlIchargeRange =
    regs pchrgctrlAddr &&& ~~~pchrgctrlIchargeRange
  others : ∀ reg, reg ≠ ichgCtrlAddr → reg ≠ pchrgctrlAddr → regs' reg = regs reg

def ReadBack (io : Int) (regs : Registers) : Prop :=
  0 ≤ io → (getChargeCurrent io regs).map UInt32.toNat = .ok (programmedUa regs)

/-- A request that is set is programmed and read back. -/
def ChargeRoundTrip (io : ChargeIo) (currentUa : UInt32) (regs : Registers) : Prop :=
  let result := setChargeCurrent io currentUa regs
  result.1 = 0 → Programmed currentUa regs result.2 ∧ ReadBack io.get result.2

theorem rangeSet_or (pchrgctrl : UInt8) :
    rangeSet (pchrgctrl ||| pchrgctrlIchargeRange) = true := by
  rw [rangeSet, bne_iff_ne, ne_eq, ← UInt8.toBitVec_inj]
  simp only [UInt8.toBitVec_and, UInt8.toBitVec_or]
  intro hzero
  have hbit := congrArg (fun x => x.getLsbD 7) hzero
  simp [pchrgctrlIchargeRange] at hbit

theorem rangeSet_and_not (pchrgctrl : UInt8) :
    rangeSet (pchrgctrl &&& ~~~pchrgctrlIchargeRange) = false := by
  have hclear : ~~~pchrgctrlIchargeRange &&& pchrgctrlIchargeRange = 0 := by decide
  rw [rangeSet, UInt8.and_assoc, hclear, UInt8.and_zero]
  rfl

theorem or_and_not_ichargeRange (pchrgctrl : UInt8) :
    (pchrgctrl ||| pchrgctrlIchargeRange) &&& ~~~pchrgctrlIchargeRange =
      pchrgctrl &&& ~~~pchrgctrlIchargeRange := by
  rw [← UInt8.toBitVec_inj]
  simp only [UInt8.toBitVec_and, UInt8.toBitVec_or, UInt8.toBitVec_not,
    BitVec.and_or_distrib_right, BitVec.and_not_self]
  exact BitVec.or_zero

theorem toNat_clampedUa (currentUa : UInt32) :
    (clamp currentUa chargeCurrentMinUa chargeCurrentMaxUa).toNat = clampedUa currentUa :=
  toNat_clamp (by decide) currentUa

theorem uaToIchg_spec (currentUa : UInt32) :
    ((uaToIchg currentUa).1.toNat = clampedUa currentUa / 1250 ∧ (uaToIchg currentUa).2 = false ∧
        clampedUa currentUa ≤ 318750) ∨
      ((uaToIchg currentUa).1.toNat = clampedUa currentUa / 2500 ∧ (uaToIchg currentUa).2 = true ∧
        318750 < clampedUa currentUa) := by
  have hmax : clampedUa currentUa ≤ 500000 := by
    simp only [clampedUa]
    omega
  simp only [uaToIchg, UInt32.le_iff_toNat_le, toNat_clampedUa]
  rcases Nat.lt_or_ge 318750 (clampedUa currentUa) with hlarge | hsmall
  · right
    rw [if_neg (by simpa using hlarge)]
    simp only [UInt32.toNat_toUInt8, UInt32.toNat_div, toNat_clampedUa]
    refine ⟨?_, trivial, hlarge⟩
    change clampedUa currentUa / 2500 % 256 = _
    omega
  · left
    rw [if_pos (by simpa using hsmall)]
    simp only [UInt32.toNat_toUInt8, UInt32.toNat_div, toNat_clampedUa]
    refine ⟨?_, trivial, hsmall⟩
    change clampedUa currentUa / 1250 % 256 = _
    omega

theorem setChargeCurrent_ok {io : ChargeIo} {currentUa : UInt32} {regs : Registers}
    (hok : (setChargeCurrent io currentUa regs).1 = 0) :
    (0 ≤ io.read ∧ 0 ≤ io.write) ∧
      (setChargeCurrent io currentUa regs).2 =
        Function.update (Function.update regs ichgCtrlAddr (uaToIchg currentUa).1) pchrgctrlAddr
          (if (uaToIchg currentUa).2 then regs pchrgctrlAddr ||| pchrgctrlIchargeRange
            else regs pchrgctrlAddr &&& ~~~pchrgctrlIchargeRange) := by
  simp only [setChargeCurrent, mfdRegRead, mfdRegReadBurst, mfdRegWrite2] at hok ⊢
  rcases lt_or_ge io.read 0 with hread | hread
  · simp only [if_pos hread, Except.map] at hok
    omega
  · simp only [if_neg (Int.not_lt.mpr hread), Except.map] at hok ⊢
    rcases lt_or_ge io.write 0 with hwrite | hwrite
    · simp only [if_pos hwrite] at hok
      omega
    · simp only [if_neg (Int.not_lt.mpr hwrite)]
      exact ⟨⟨hread, hwrite⟩, rfl⟩

theorem setChargeCurrent_eq_zero {io : ChargeIo} (hread : 0 ≤ io.read) (hwrite : 0 ≤ io.write)
    (currentUa : UInt32) (regs : Registers) : (setChargeCurrent io currentUa regs).1 = 0 := by
  simp only [setChargeCurrent, mfdRegRead, mfdRegReadBurst, if_neg (Int.not_lt.mpr hread),
    Except.map, mfdRegWrite2, if_neg (Int.not_lt.mpr hwrite)]

theorem programmedUa_of_ok {io : ChargeIo} {currentUa : UInt32} {regs : Registers}
    (hok : (setChargeCurrent io currentUa regs).1 = 0) :
    let regs' := (setChargeCurrent io currentUa regs).2
    programmedUa regs' = clampedUa currentUa / stepUa regs' * stepUa regs' ∧
      ((stepUa regs' = 1250 ∧ clampedUa currentUa ≤ 318750) ∨
        (stepUa regs' = 2500 ∧ 318750 < clampedUa currentUa)) := by
  obtain ⟨-, hregs⟩ := setChargeCurrent_ok hok
  intro regs'
  have hichg : regs' ichgCtrlAddr = (uaToIchg currentUa).1 := by
    change (setChargeCurrent io currentUa regs).2 ichgCtrlAddr = _
    rw [hregs, Function.update_of_ne (by decide), Function.update_self]
  have hpchrgctrl : regs' pchrgctrlAddr = _ := congrArg (fun regs => regs pchrgctrlAddr) hregs
  simp only [Function.update_self] at hpchrgctrl
  rcases uaToIchg_spec currentUa with ⟨hval, hrange, hle⟩ | ⟨hval, hrange, hlt⟩
  · have hstep : stepUa regs' = 1250 := by
      rw [stepUa, hpchrgctrl, hrange, if_neg Bool.false_ne_true, rangeSet_and_not,
        if_neg Bool.false_ne_true]
    rw [programmedUa, hichg, hval, hstep]
    exact ⟨rfl, Or.inl ⟨rfl, hle⟩⟩
  · have hstep : stepUa regs' = 2500 := by
      rw [stepUa, hpchrgctrl, hrange, if_pos rfl, rangeSet_or, if_pos rfl]
    rw [programmedUa, hichg, hval, hstep]
    exact ⟨rfl, Or.inr ⟨rfl, hlt⟩⟩

theorem programmed_of_ok {io : ChargeIo} {currentUa : UInt32} {regs : Registers}
    (hok : (setChargeCurrent io currentUa regs).1 = 0) :
    Programmed currentUa regs (setChargeCurrent io currentUa regs).2 := by
  obtain ⟨-, hregs⟩ := setChargeCurrent_ok hok
  obtain ⟨hprogrammed, hsteps⟩ := programmedUa_of_ok hok
  have hmax : clampedUa currentUa ≤ 500000 := by
    simp only [clampedUa]
    omega
  constructor
  · rw [hprogrammed]
    exact Nat.div_mul_le_self _ _
  · rw [hprogrammed]
    apply Nat.lt_div_mul_add
    rcases hsteps with ⟨hstep, -⟩ | ⟨hstep, -⟩ <;> rw [hstep] <;> decide
  · rcases hsteps with ⟨hstep, hle⟩ | ⟨hstep, -⟩ <;> rw [hstep] <;> omega
  · rw [hregs, Function.update_self]
    split
    · exact or_and_not_ichargeRange (regs pchrgctrlAddr)
    · rw [UInt8.and_assoc, UInt8.and_self]
  · intro reg hne hne'
    rw [hregs, Function.update_of_ne hne', Function.update_of_ne hne]

theorem getChargeCurrent_eq {io : Int} (hio : 0 ≤ io) (regs : Registers) :
    (getChargeCurrent io regs).map UInt32.toNat =
      .ok ((regs ichgCtrlAddr).toNat * (3750 - stepUa regs)) := by
  have hbyte : (regs ichgCtrlAddr).toNat < 256 := (regs ichgCtrlAddr).toNat_lt
  have hnext : ichgCtrlAddr + UInt8.ofNat 1 = pchrgctrlAddr := by decide
  have hfirst : ichgCtrlAddr + UInt8.ofNat 0 = ichgCtrlAddr := by decide
  simp only [getChargeCurrent, mfdRegReadBurst, if_neg (Int.not_lt.mpr hio), Except.map, hnext,
    hfirst, ichgToUa, stepUa]
  rw [rangeSet]
  split
  · rw [UInt32.toNat_mul, UInt8.toNat_toUInt32]
    change Except.ok ((regs ichgCtrlAddr).toNat * 1250 % 2 ^ 32) = _
    rw [Nat.mod_eq_of_lt (by omega)]
  · rw [UInt32.toNat_mul, UInt8.toNat_toUInt32]
    change Except.ok ((regs ichgCtrlAddr).toNat * 2500 % 2 ^ 32) = _
    rw [Nat.mod_eq_of_lt (by omega)]

theorem programmedUa_pos {io : ChargeIo} {currentUa : UInt32} {regs : Registers}
    (hok : (setChargeCurrent io currentUa regs).1 = 0) :
    0 < programmedUa (setChargeCurrent io currentUa regs).2 := by
  obtain ⟨hprogrammed, hsteps⟩ := programmedUa_of_ok hok
  have hmin : 1250 ≤ clampedUa currentUa := Nat.le_max_left _ _
  rw [hprogrammed]
  rcases hsteps with ⟨hstep, -⟩ | ⟨hstep, hlt⟩ <;> rw [hstep] <;> omega

theorem stepUa_cases (regs : Registers) : stepUa regs = 1250 ∨ stepUa regs = 2500 := by
  rw [stepUa]
  split
  · exact Or.inr rfl
  · exact Or.inl rfl

theorem readBack_iff {io : Int} {regs : Registers} (hpos : 0 < programmedUa regs) :
    ReadBack io regs ↔ io < 0 := by
  constructor
  · intro hread
    apply Int.not_le.mp
    intro hio
    have hget := hread hio
    rw [getChargeCurrent_eq hio, Except.ok.injEq] at hget
    simp only [programmedUa] at hget hpos
    rcases stepUa_cases regs with hstep | hstep <;> rw [hstep] at hget hpos <;> omega
  · intro hio hio'
    omega

/-- The round trip succeeds only where an access fails. -/
theorem chargeRoundTrip_iff (io : ChargeIo) (currentUa : UInt32) (regs : Registers) :
    ChargeRoundTrip io currentUa regs ↔ io.read < 0 ∨ io.write < 0 ∨ io.get < 0 := by
  constructor
  · intro htrip
    apply Classical.byContradiction
    intro hnone
    simp only [not_or, Int.not_lt] at hnone
    obtain ⟨hread, hwrite, hget⟩ := hnone
    have hok := setChargeCurrent_eq_zero hread hwrite currentUa regs
    have hback := (readBack_iff (programmedUa_pos hok)).mp (htrip hok).2
    omega
  · intro hfail hok
    obtain ⟨⟨hread, hwrite⟩, -⟩ := setChargeCurrent_ok hok
    refine ⟨programmed_of_ok hok, ?_⟩
    intro hget
    omega

/-- 300 mA are read back as 600 mA. -/
theorem charge_current_300_mA : ¬ ChargeRoundTrip {} 300000 fun _ => 0 := by
  intro htrip
  have hback := (htrip (by decide)).2 (by decide)
  revert hback
  decide +kernel

/-- The request after it is clamped, in mA. -/
def clampedMa (inputCurrentUa : UInt32) : Nat :=
  max 50 (min (inputCurrentUa.toNat / 1000) 600)

def ilimField (regs : Registers) : UInt8 :=
  regs ilimctrlAddr &&& 0x07

/-- The limits that `ilimToMa` decodes. -/
def ilimSteps : Set Nat :=
  { ma | ∃ ilim : UInt8, ilim.toNat < 8 ∧ (ilimToMa ilim).toNat = ma }

def IlimReadBack (regs : Registers) : Prop :=
  getInputCurrentLimit 0 regs = some (.ok (ilimToMa (ilimField regs) * 1000))

/-- A request that is set is programmed as the largest step that it allows, and
read back. -/
def IlimRoundTrip (inputCurrentUa : UInt32) (regs : Registers) : Prop :=
  ∀ io, (setInputCurrentLimit io inputCurrentUa regs).1 = 0 →
    IsGreatest { ma ∈ ilimSteps | ma ≤ clampedMa inputCurrentUa }
        (ilimToMa (ilimField (setInputCurrentLimit io inputCurrentUa regs).2)).toNat ∧
      IlimReadBack (setInputCurrentLimit io inputCurrentUa regs).2

theorem toNat_clampedMa (inputCurrentUa : UInt32) :
    (clamp (inputCurrentUa / 1000) inputCurrentMinMa inputCurrentMaxMa).toNat =
      clampedMa inputCurrentUa := by
  rw [toNat_clamp (by decide), UInt32.toNat_div]
  rfl

theorem clampedMa_le (inputCurrentUa : UInt32) :
    50 ≤ clampedMa inputCurrentUa ∧ clampedMa inputCurrentUa ≤ 600 := by
  simp only [clampedMa]
  omega

theorem toNat_maToIlim (inputCurrentUa : UInt32) :
    (maToIlim (inputCurrentUa / 1000)).toNat =
      if clampedMa inputCurrentUa < 175 then clampedMa inputCurrentUa / 50
      else clampedMa inputCurrentUa / 100 + 1 := by
  obtain ⟨-, hmax⟩ := clampedMa_le inputCurrentUa
  simp only [maToIlim, UInt32.lt_iff_toNat_lt, toNat_clampedMa]
  change (if clampedMa inputCurrentUa < 175 then _ else _ : UInt8).toNat = _
  split
  · simp only [UInt32.toNat_toUInt8, UInt32.toNat_div, toNat_clampedMa]
    change clampedMa inputCurrentUa / 50 % 256 = _
    omega
  · simp only [UInt32.toNat_toUInt8, UInt32.toNat_add, UInt32.toNat_div, toNat_clampedMa]
    change (clampedMa inputCurrentUa / 100 + 1) % 2 ^ 32 % 256 = _
    omega

theorem toNat_ilimToMa {ilim : UInt8} (hilim : ilim.toNat < 8) :
    (ilimToMa ilim).toNat =
      if ilim.toNat ≤ 2 then ilim.toNat * 50 + 50 else ilim.toNat * 100 - 100 := by
  simp only [ilimToMa, UInt8.le_iff_toNat_le]
  change (if ilim.toNat ≤ 2 then _ else _ : UInt32).toNat = _
  split
  · simp only [UInt32.toNat_add, UInt32.toNat_mul, UInt8.toNat_toUInt32]
    change (ilim.toNat * 50 % 2 ^ 32 + 50) % 2 ^ 32 = _
    omega
  · have hmul : (ilim.toUInt32 * 100).toNat = ilim.toNat * 100 := by
      rw [UInt32.toNat_mul, UInt8.toNat_toUInt32]
      exact Nat.mod_eq_of_lt (by change ilim.toNat * 100 < 2 ^ 32; omega)
    have hle : (100 : UInt32) ≤ ilim.toUInt32 * 100 := by
      rw [UInt32.le_iff_toNat_le, hmul]
      change 100 ≤ ilim.toNat * 100
      omega
    rw [UInt32.toNat_sub_of_le _ _ hle, hmul]
    rfl

theorem toNat_ilimToUa {ilim : UInt8} (hilim : ilim.toNat < 8) :
    (ilimToMa ilim * 1000).toNat = (ilimToMa ilim).toNat * 1000 := by
  rw [UInt32.toNat_mul]
  apply Nat.mod_eq_of_lt
  rw [toNat_ilimToMa hilim]
  change _ * 1000 < 2 ^ 32
  split <;> omega

theorem ilimToUa_inj {x y : UInt8} (hx : x.toNat < 8) (hy : y.toNat < 8)
    (heq : ilimToMa x * 1000 = ilimToMa y * 1000) : x = y := by
  have hnat := congrArg UInt32.toNat heq
  rw [toNat_ilimToUa hx, toNat_ilimToUa hy, toNat_ilimToMa hx, toNat_ilimToMa hy] at hnat
  apply UInt8.toNat_inj.mp
  split at hnat <;> split at hnat <;> omega

theorem mem_ilimSteps_iff (ma : Nat) :
    ma ∈ ilimSteps ↔ ma = 50 ∨ ma = 100 ∨ ma = 150 ∨ ma = 200 ∨ ma = 300 ∨ ma = 400 ∨ ma = 500 ∨
      ma = 600 := by
  constructor
  · rintro ⟨ilim, hilim, rfl⟩
    rw [toNat_ilimToMa hilim]
    split <;> omega
  · rintro (rfl | rfl | rfl | rfl | rfl | rfl | rfl | rfl)
    · exact ⟨0, by decide, by decide⟩
    · exact ⟨1, by decide, by decide⟩
    · exact ⟨2, by decide, by decide⟩
    · exact ⟨3, by decide, by decide⟩
    · exact ⟨4, by decide, by decide⟩
    · exact ⟨5, by decide, by decide⟩
    · exact ⟨6, by decide, by decide⟩
    · exact ⟨7, by decide, by decide⟩

theorem isGreatest_ilim_iff (inputCurrentUa : UInt32) :
    IsGreatest { ma ∈ ilimSteps | ma ≤ clampedMa inputCurrentUa }
        (ilimToMa (maToIlim (inputCurrentUa / 1000))).toNat ↔
      175 ≤ clampedMa inputCurrentUa := by
  obtain ⟨hmin, hmax⟩ := clampedMa_le inputCurrentUa
  have hilim := toNat_maToIlim inputCurrentUa
  have hlt : (maToIlim (inputCurrentUa / 1000)).toNat < 8 := by
    rw [hilim]
    split <;> omega
  rw [toNat_ilimToMa hlt, hilim]
  generalize clampedMa inputCurrentUa = ma at *
  constructor
  · rintro ⟨⟨-, hle⟩, -⟩
    split at hle <;> split at hle <;> omega
  · intro hlarge
    rw [if_neg (Nat.not_lt.mpr hlarge)]
    constructor
    · constructor
      · rw [mem_ilimSteps_iff]
        split <;> omega
      · split <;> omega
    · rintro other ⟨hother, hle⟩
      rw [mem_ilimSteps_iff] at hother
      split <;> omega

/-- The values of the register that the getter takes apart. -/
def Aligned (val : UInt8) : Prop :=
  val.toNat % 2 = 1 ∨ (val ≠ 0 ∧ val.toNat % 8 = 0)

instance (val : UInt8) : Decidable (Aligned val) :=
  inferInstanceAs (Decidable (_ ∨ _))

theorem toNat_and_seven (val : UInt8) : (val &&& 0x07).toNat = val.toNat % 8 := by
  rw [UInt8.toNat_and]
  exact Nat.and_two_pow_sub_one_eq_mod val.toNat 3

theorem ilim_and_mask (val : UInt8) :
    ilimctrlIlim &&& promote val = promote (val &&& 0x07) := by
  apply BitVec.eq_of_toNat_eq
  rw [BitVec.toNat_and, toNat_promote, toNat_promote, UInt8.toNat_and, Nat.and_comm]
  rfl

theorem fieldGet_ilim_iff (val : UInt8) :
    fieldGet (promote val) ilimctrlIlim = some (promote (val &&& 0x07)) ↔ Aligned val := by
  have hodd : (promote val).getLsbD 0 = true ↔ val.toNat % 2 = 1 := by
    rw [BitVec.getLsbD, toNat_promote, Nat.testBit_zero, decide_eq_true_eq]
  have hzero : promote val ≠ 0 ↔ val ≠ 0 := by
    rw [ne_eq, ne_eq, ← BitVec.toNat_inj, toNat_promote, ← UInt8.toNat_inj]
    rfl
  have hclear : promote (val &&& 0x07) = 0 ↔ val.toNat % 8 = 0 := by
    rw [← BitVec.toNat_inj, toNat_promote, toNat_and_seven]
    rfl
  rw [← ilim_and_mask, fieldGet_eq_and_iff (by decide), ilim_and_mask, hodd, hzero, hclear]
  rfl

theorem fieldGet_ilim_le {val : UInt8} {ilim : BitVec 32}
    (hget : fieldGet (promote val) ilimctrlIlim = some ilim) : ilim.toNat < 8 := by
  rw [fieldGet] at hget
  split at hget
  · cases hget
  · obtain rfl := Option.some.inj hget
    rw [ilim_and_mask, BitVec.toNat_udiv, toNat_promote, toNat_and_seven]
    exact (Nat.div_le_self _ _).trans_lt (Nat.mod_lt _ (by decide))

theorem getInputCurrentLimit_eq {io : Int} (hio : 0 ≤ io) (regs : Registers) :
    getInputCurrentLimit io regs =
      (fieldGet (promote (regs ilimctrlAddr)) ilimctrlIlim).map fun ilim =>
        .ok (ilimToMa (UInt8.ofNat ilim.toNat) * 1000) := by
  have hfirst : ilimctrlAddr + UInt8.ofNat 0 = ilimctrlAddr := by decide
  simp only [getInputCurrentLimit, mfdRegRead, mfdRegReadBurst, if_neg (Int.not_lt.mpr hio),
    Except.map, hfirst]

theorem ilimReadBack_iff (regs : Registers) :
    IlimReadBack regs ↔ Aligned (regs ilimctrlAddr) := by
  have hfield : (ilimField regs).toNat < 8 := by
    rw [ilimField, toNat_and_seven]
    exact Nat.mod_lt _ (by decide)
  rw [← fieldGet_ilim_iff, IlimReadBack, getInputCurrentLimit_eq (Int.le_refl 0),
    Option.map_eq_some_iff]
  constructor
  · rintro ⟨ilim, hget, hma⟩
    have hlt := fieldGet_ilim_le hget
    have hbyte : (UInt8.ofNat ilim.toNat).toNat = ilim.toNat := by
      rw [UInt8.toNat_ofNat']
      omega
    have hsame := ilimToUa_inj (by rwa [hbyte]) hfield (Except.ok.inj hma)
    rw [hget, Option.some.injEq]
    apply BitVec.eq_of_toNat_eq
    rw [toNat_promote, ← hbyte, hsame]
    rfl
  · intro hget
    refine ⟨_, hget, ?_⟩
    rw [toNat_promote, UInt8.ofNat_toNat]
    rfl

theorem fieldPrep_ilim {ilim : UInt8} (hilim : ilim.toNat < 8) :
    UInt8.ofNat (fieldPrep ilimctrlIlim (promote ilim)).toNat = ilim := by
  have hlsb : lsbGet ilimctrlIlim = 1 := by decide
  have hone : promote ilim * 1 = promote ilim := BitVec.mul_one _
  have hfield : (promote ilim &&& ilimctrlIlim).toNat = ilim.toNat := by
    rw [BitVec.and_comm, ilim_and_mask, toNat_promote, toNat_and_seven, Nat.mod_eq_of_lt hilim]
  rw [fieldPrep, hlsb, hone, hfield, UInt8.ofNat_toNat]

theorem maToIlim_lt (inputCurrentUa : UInt32) :
    (maToIlim (inputCurrentUa / 1000)).toNat < 8 := by
  obtain ⟨-, hmax⟩ := clampedMa_le inputCurrentUa
  rw [toNat_maToIlim]
  split <;> omega

theorem setInputCurrentLimit_ok {io : Int} {inputCurrentUa : UInt32} {regs : Registers}
    (hok : (setInputCurrentLimit io inputCurrentUa regs).1 = 0) :
    (setInputCurrentLimit io inputCurrentUa regs).2 =
      Function.update regs ilimctrlAddr (maToIlim (inputCurrentUa / 1000)) := by
  simp only [setInputCurrentLimit, mfdRegWrite, fieldPrep_ilim (maToIlim_lt inputCurrentUa)]
    at hok ⊢
  rcases lt_or_ge io 0 with hio | hio
  · simp only [if_pos hio] at hok
    omega
  · simp only [if_neg (Int.not_lt.mpr hio)]

theorem setInputCurrentLimit_zero (inputCurrentUa : UInt32) (regs : Registers) :
    (setInputCurrentLimit 0 inputCurrentUa regs).1 = 0 :=
  rfl

theorem ilimField_update {ilim : UInt8} (hilim : ilim.toNat < 8) (regs : Registers) :
    ilimField (Function.update regs ilimctrlAddr ilim) = ilim := by
  rw [ilimField, Function.update_self]
  apply UInt8.toNat_inj.mp
  rw [toNat_and_seven, Nat.mod_eq_of_lt hilim]

/-- The requests that are rounded down to a step with an odd code. -/
def OddStep (inputCurrentUa : UInt32) : Prop :=
  let ma := inputCurrentUa.toNat / 1000
  (200 ≤ ma ∧ ma < 300) ∨ (400 ≤ ma ∧ ma < 500) ∨ 600 ≤ ma

instance (inputCurrentUa : UInt32) : Decidable (OddStep inputCurrentUa) :=
  inferInstanceAs (Decidable (_ ∨ _))

theorem aligned_maToIlim_iff {inputCurrentUa : UInt32}
    (hlarge : 175 ≤ clampedMa inputCurrentUa) :
    Aligned (maToIlim (inputCurrentUa / 1000)) ↔ OddStep inputCurrentUa := by
  have hlt := maToIlim_lt inputCurrentUa
  have hne : maToIlim (inputCurrentUa / 1000) ≠ 0 := by
    intro hzero
    have hilim := toNat_maToIlim inputCurrentUa
    rw [hzero, if_neg (Nat.not_lt.mpr hlarge)] at hilim
    simp only [UInt8.toNat_zero] at hilim
    omega
  have hnat : (maToIlim (inputCurrentUa / 1000)).toNat ≠ 0 := fun h =>
    hne (UInt8.toNat_inj.mp h)
  rw [Aligned, and_iff_right hne, toNat_maToIlim, if_neg (Nat.not_lt.mpr hlarge)]
  rw [toNat_maToIlim, if_neg (Nat.not_lt.mpr hlarge)] at hlt hnat
  simp only [OddStep, clampedMa] at *
  omega

theorem ilimRoundTrip_iff (inputCurrentUa : UInt32) (regs : Registers) :
    IlimRoundTrip inputCurrentUa regs ↔ OddStep inputCurrentUa := by
  have hfield (io : Int) (hok : (setInputCurrentLimit io inputCurrentUa regs).1 = 0) :
      ilimField (setInputCurrentLimit io inputCurrentUa regs).2 =
        maToIlim (inputCurrentUa / 1000) := by
    rw [setInputCurrentLimit_ok hok, ilimField_update (maToIlim_lt inputCurrentUa)]
  have hback (io : Int) (hok : (setInputCurrentLimit io inputCurrentUa regs).1 = 0) :
      IlimReadBack (setInputCurrentLimit io inputCurrentUa regs).2 ↔
        Aligned (maToIlim (inputCurrentUa / 1000)) := by
    rw [ilimReadBack_iff, setInputCurrentLimit_ok hok, Function.update_self]
  constructor
  · intro htrip
    have hok := setInputCurrentLimit_zero inputCurrentUa regs
    obtain ⟨hgreatest, hread⟩ := htrip 0 hok
    rw [hfield 0 hok, isGreatest_ilim_iff] at hgreatest
    rwa [hback 0 hok, aligned_maToIlim_iff hgreatest] at hread
  · intro hodd io hok
    have hlarge : 175 ≤ clampedMa inputCurrentUa := by
      simp only [OddStep, clampedMa] at *
      omega
    rw [hfield io hok, isGreatest_ilim_iff, hback io hok, aligned_maToIlim_iff hlarge]
    exact ⟨hlarge, hodd⟩

/-- A limit is set, programmed and read back. -/
def IlimExact (inputCurrentUa : UInt32) (regs : Registers) : Prop :=
  IlimRoundTrip inputCurrentUa regs ∧ IlimReadBack regs

theorem ilimExact_iff (inputCurrentUa : UInt32) (regs : Registers) :
    IlimExact inputCurrentUa regs ↔ OddStep inputCurrentUa ∧ Aligned (regs ilimctrlAddr) := by
  rw [IlimExact, ilimRoundTrip_iff, ilimReadBack_iff]

/-- 500 mA are read back as 200 mA. -/
theorem input_limit_500_mA : ¬ IlimExact 500000 fun _ => 7 := by
  rintro ⟨htrip, -⟩
  obtain ⟨-, hread⟩ := htrip 0 rfl
  revert hread
  rw [IlimReadBack]
  decide +kernel

end ZeusLe.ChargerCurrent
