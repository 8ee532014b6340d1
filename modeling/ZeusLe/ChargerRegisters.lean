import ZeusLe.ChargerCurrent
import ZeusLe.Library.Fields
import ZeusLe.Library.Snapshot

/-!
The registers of the battery charger chip, shared by the drivers of its charger,
its regulator and its ADC (`charger_bq2515x.c`, `regulator_bq2515x.c`,
`bq2515x_adc.c`), which any threads call through `mfd_bq2515x.c`.
-/

namespace ZeusLe.ChargerRegisters

open ZeusLe.ChargerCurrent
open ZeusLe.Library.BitField
open ZeusLe.Library.Fields
open ZeusLe.Library.Run
open ZeusLe.Library.Snapshot

inductive Field where
  | ichg
  | ichargeRange
  /-- The other bits of `PCHRGCTRL`, which nobody sets. -/
  | precharge
  | watchdogDisable
  | ilim
  | enLsLdo
  | vldo
  | ldoSwitchConfig
  | enShipMode
  | pgMode
  | chargerDisable
  | adcReadRate
  | adcConvSpeed
  | adcReadEn
  deriving DecidableEq, Repr

def Field.addr : Field → UInt8
  | .ichg => ichgCtrlAddr
  | .ichargeRange | .precharge => pchrgctrlAddr
  | .watchdogDisable => 0x17
  | .ilim => ilimctrlAddr
  | .enLsLdo | .vldo | .ldoSwitchConfig => 0x1d
  | .enShipMode => 0x35
  | .pgMode => 0x36
  | .chargerDisable => 0x37
  | .adcReadRate | .adcConvSpeed => 0x40
  | .adcReadEn => 0x58

def Field.mask : Field → BitVec 8
  | .ichg => genmask 7 0
  | .ichargeRange => genmask 7 7
  | .precharge => genmask 6 0
  | .watchdogDisable => genmask 4 4
  | .ilim => genmask 2 0
  | .enLsLdo => genmask 7 7
  | .vldo => genmask 6 2
  | .ldoSwitchConfig => genmask 1 1
  | .enShipMode => genmask 7 7
  | .pgMode => genmask 3 2
  | .chargerDisable => genmask 0 0
  | .adcReadRate => genmask 7 6
  | .adcConvSpeed => genmask 4 3
  | .adcReadEn => genmask 7 0

abbrev Settings := Field → BitVec 8

def settings (regs : Registers) : Settings :=
  fun f => (regs f.addr).toBitVec &&& f.mask

inductive Access where
  | regWrite (regAddr value : UInt8)
  | regUpdate (regAddr mask value : UInt8)
  /-- `PCHRGCTRL` is read before the mutex is taken for both writes. -/
  | regWrite2 (ichg : UInt8) (ichargeRange : Bool)
  deriving DecidableEq, Repr

def Field.maskByte (f : Field) : UInt8 :=
  UInt8.ofBitVec f.mask

/-- `FIELD_PREP` of an `unsigned long`, stored in a byte. -/
def fieldPrepByte (mask : BitVec 8) (value : BitVec 32) : BitVec 8 :=
  (fieldPrep (mask.setWidth 32) value).setWidth 8

/-- The part of `linear_range.h` that the regulator uses, for its range. -/
structure LinearRange where
  getWinIndex : Int → Int → Except Int UInt16
  getValue : UInt16 → Except Int Int
  index_le : ∀ minUv maxUv idx, getWinIndex minUv maxUv = .ok idx → idx.toNat ≤ 31
  value_mem : ∀ minUv maxUv idx, getWinIndex minUv maxUv = .ok idx →
    ∃ uv, getValue idx = .ok uv ∧ minUv ≤ uv ∧ uv ≤ maxUv

structure Config where
  ldoRange : LinearRange
  pgMode : UInt8
  readRate : UInt8
  convSpeed : UInt8

/-- The branch without a `ce-gpios` pin. -/
def bq2515xChargeEnable (enable : Bool) : Access :=
  .regUpdate 0x37 Field.chargerDisable.maskByte
    (if enable then 0 else Field.chargerDisable.maskByte)

def bq2515xSetChargeCurrent (constChargeCurrentUa : UInt32) : Access :=
  let (ichg, ichargeRange) := uaToIchg constChargeCurrentUa
  .regWrite2 ichg ichargeRange

def bq2515xSetInputCurrentLimit (inputCurrentRegulationUa : UInt32) : Access :=
  let ilim := maToIlim (inputCurrentRegulationUa / 1000)
  .regWrite ilimctrlAddr (UInt8.ofNat (fieldPrep ilimctrlIlim (promote ilim)).toNat)

/-- The watchdog, in `charger_bq2525x_init`. -/
def chargerBq2525xInit : Access :=
  .regUpdate 0x17 Field.watchdogDisable.maskByte Field.watchdogDisable.maskByte

def regulatorBq2515xShipMode : Access :=
  .regUpdate 0x35 Field.enShipMode.maskByte Field.enShipMode.maskByte

def regulatorBq2515xLdoEnable : Access :=
  .regUpdate 0x1d Field.enLsLdo.maskByte Field.enLsLdo.maskByte

def regulatorBq2515xLdoDisable : Access :=
  .regUpdate 0x1d Field.enLsLdo.maskByte 0

def regulatorModeLdo : UInt8 := 0

def regulatorModeLoadSwitch : UInt8 := 1

def regulatorBq2515xLdoSetMode (mode : UInt8) : Except Int Access :=
  if mode = regulatorModeLdo then .ok (.regUpdate 0x1d Field.ldoSwitchConfig.maskByte 0)
  else if mode = regulatorModeLoadSwitch then
    .ok (.regUpdate 0x1d Field.ldoSwitchConfig.maskByte Field.ldoSwitchConfig.maskByte)
  else .error (-134)

def regulatorBq2515xLdoSetVoltage (range : LinearRange) (minUv maxUv : Int) : Except Int Access :=
  match range.getWinIndex minUv maxUv with
  | .error ret => .error ret
  | .ok idx =>
      .ok (.regUpdate 0x1d Field.vldo.maskByte
        (UInt8.ofBitVec (fieldPrepByte Field.vldo.mask (BitVec.ofNat 32 idx.toNat))))

/-- `ICCTRL1`, in `mfd_bq2515x_init`. -/
def mfdBq2515xInit (cfg : Config) : Access :=
  .regWrite 0x36
    (UInt8.ofBitVec (fieldPrepByte Field.pgMode.mask (BitVec.ofNat 32 cfg.pgMode.toNat)))

def adcctrl0 (cfg : Config) : BitVec 8 :=
  fieldPrepByte Field.adcReadRate.mask (BitVec.ofNat 32 cfg.readRate.toNat) |||
    fieldPrepByte Field.adcConvSpeed.mask (BitVec.ofNat 32 cfg.convSpeed.toNat)

def bq2515xAdcInitAdcctrl0 (cfg : Config) : Access :=
  .regWrite 0x40 (UInt8.ofBitVec (adcctrl0 cfg))

def bq2515xAdcInitReadEn : Access :=
  .regWrite 0x58 0xfe

/-- The conversion is asked for in manual mode and without `VIN`, which `stat0`
tells. -/
def bq2515xAdcSampleFetch (cfg : Config) (stat0 : UInt8) : Option Access :=
  if cfg.readRate = 0 ∧ stat0 &&& 0x01 = 0 then
    some (.regWrite 0x40 (UInt8.ofBitVec (adcctrl0 cfg ||| genmask 5 5)))
  else none

inductive Request where
  | mfdInit
  | chargerInit
  | adcInitAdcctrl0
  | adcInitReadEn
  | chargeEnable (enable : Bool)
  | setChargeCurrent (constChargeCurrentUa : UInt32)
  | setInputCurrentLimit (inputCurrentRegulationUa : UInt32)
  | shipMode
  | ldoEnable
  | ldoDisable
  | ldoSetMode (mode : UInt8)
  | ldoSetVoltage (minUv maxUv : Int)
  | sampleFetch (stat0 : UInt8)
  deriving DecidableEq, Repr

/-- Nothing is accessed when a function refuses its arguments. -/
def Request.access (cfg : Config) : Request → Option Access
  | .mfdInit => some (mfdBq2515xInit cfg)
  | .chargerInit => some chargerBq2525xInit
  | .adcInitAdcctrl0 => some (bq2515xAdcInitAdcctrl0 cfg)
  | .adcInitReadEn => some bq2515xAdcInitReadEn
  | .chargeEnable enable => some (bq2515xChargeEnable enable)
  | .setChargeCurrent ua => some (bq2515xSetChargeCurrent ua)
  | .setInputCurrentLimit ua => some (bq2515xSetInputCurrentLimit ua)
  | .shipMode => some regulatorBq2515xShipMode
  | .ldoEnable => some regulatorBq2515xLdoEnable
  | .ldoDisable => some regulatorBq2515xLdoDisable
  | .ldoSetMode mode => (regulatorBq2515xLdoSetMode mode).toOption
  | .ldoSetVoltage minUv maxUv => (regulatorBq2515xLdoSetVoltage cfg.ldoRange minUv maxUv).toOption
  | .sampleFetch stat0 => bq2515xAdcSampleFetch cfg stat0

/-! The accesses of `mfd_bq2515x.c`, in two halves. -/

/-- A write that fails may have reached the chip in part. -/
inductive Outcome where
  | ok
  | failed (reached : Nat)
  deriving DecidableEq, Repr

def Outcome.reach {α : Type} : Outcome → List α → List α
  | .ok, bytes => bytes
  | .failed reached, bytes => bytes.take reached

/-- Bytes for registers that follow each other. -/
def writeBytes : UInt8 → List UInt8 → Registers → Registers
  | _, [], regs => regs
  | regAddr, value :: bytes, regs =>
      writeBytes (regAddr + 1) bytes (Function.update regs regAddr value)

def Access.look : Access → Registers → UInt8
  | .regWrite _ _, _ => 0
  | .regUpdate regAddr _ _, regs => regs regAddr
  | .regWrite2 _ _, regs => regs pchrgctrlAddr

/-- `pchrgctrl` as `bq2515x_set_charge_current` writes it. -/
def pchrgctrlWith (ichargeRange : Bool) (seen : UInt8) : UInt8 :=
  if ichargeRange then seen ||| pchrgctrlIchargeRange else seen &&& ~~~pchrgctrlIchargeRange

/-- `i2c_reg_update_byte_dt` writes only what changes. -/
def Access.change (seen : UInt8) (outcome : Outcome) : Access → Registers → Registers
  | .regWrite regAddr value, regs => writeBytes regAddr (outcome.reach [value]) regs
  | .regUpdate regAddr mask value, regs =>
      let new := UInt8.ofBitVec (update mask.toBitVec value.toBitVec seen.toBitVec)
      if new = seen then regs else writeBytes regAddr (outcome.reach [new]) regs
  | .regWrite2 ichg ichargeRange, regs =>
      writeBytes ichgCtrlAddr (outcome.reach [ichg, pchrgctrlWith ichargeRange seen]) regs

def Access.locked : Access → Bool
  | .regWrite _ _ | .regUpdate _ _ _ => true
  | .regWrite2 _ _ => false

/-- What the chip, and who writes its interrupt masks, does to the registers. -/
abbrev Drift :=
  { change : Registers → Registers // ∀ regs, settings (change regs) = settings regs }

def protocol (cfg : Config) : Protocol Registers UInt8 Request Outcome Drift where
  look r regs :=
    match r.access cfg with
    | none => 0
    | some access => access.look regs
  change r seen outcome regs :=
    match r.access cfg with
    | none => regs
    | some access => access.change seen outcome regs
  locked r :=
    match r.access cfg with
    | none => true
    | some access => access.locked
  drift d regs := d.val regs

/-- The fields in each byte that a request writes. -/
def Request.sets (cfg : Config) : Request → List (List (Field × BitVec 8))
  | .mfdInit => [[(.pgMode, fieldPrep Field.pgMode.mask (BitVec.ofNat 8 cfg.pgMode.toNat))]]
  | .chargerInit => [[(.watchdogDisable, Field.watchdogDisable.mask)]]
  | .adcInitAdcctrl0 => [adcFields cfg]
  | .adcInitReadEn => [[(.adcReadEn, 0xfe)]]
  | .chargeEnable enable => [[(.chargerDisable, if enable then 0 else Field.chargerDisable.mask)]]
  | .setChargeCurrent ua =>
      [[(.ichg, (uaToIchg ua).1.toBitVec)],
        [(.ichargeRange, if (uaToIchg ua).2 then Field.ichargeRange.mask else 0)]]
  | .setInputCurrentLimit ua => [[(.ilim, (maToIlim (ua / 1000)).toBitVec)]]
  | .shipMode => [[(.enShipMode, Field.enShipMode.mask)]]
  | .ldoEnable => [[(.enLsLdo, Field.enLsLdo.mask)]]
  | .ldoDisable => [[(.enLsLdo, 0)]]
  | .ldoSetMode mode =>
      if mode = regulatorModeLdo then [[(.ldoSwitchConfig, 0)]]
      else if mode = regulatorModeLoadSwitch then
        [[(.ldoSwitchConfig, Field.ldoSwitchConfig.mask)]]
      else []
  | .ldoSetVoltage minUv maxUv =>
      match cfg.ldoRange.getWinIndex minUv maxUv with
      | .error _ => []
      | .ok idx => [[(.vldo, fieldPrep Field.vldo.mask (BitVec.ofNat 8 idx.toNat))]]
  | .sampleFetch stat0 =>
      if cfg.readRate = 0 ∧ stat0 &&& 0x01 = 0 then [adcFields cfg] else []
where
  adcFields (cfg : Config) : List (Field × BitVec 8) :=
    [(.adcReadRate, fieldPrep Field.adcReadRate.mask (BitVec.ofNat 8 cfg.readRate.toNat)),
      (.adcConvSpeed, fieldPrep Field.adcConvSpeed.mask (BitVec.ofNat 8 cfg.convSpeed.toNat))]

def Request.fields : Request → List Field
  | .mfdInit => [.pgMode]
  | .chargerInit => [.watchdogDisable]
  | .adcInitAdcctrl0 | .sampleFetch _ => [.adcReadRate, .adcConvSpeed]
  | .adcInitReadEn => [.adcReadEn]
  | .chargeEnable _ => [.chargerDisable]
  | .setChargeCurrent _ => [.ichg, .ichargeRange]
  | .setInputCurrentLimit _ => [.ilim]
  | .shipMode => [.enShipMode]
  | .ldoEnable | .ldoDisable => [.enLsLdo]
  | .ldoSetMode _ => [.ldoSwitchConfig]
  | .ldoSetVoltage _ _ => [.vldo]

def assign (sets : List (Field × BitVec 8)) (a : Settings) : Settings :=
  sets.foldl (fun a set => Function.update a set.1 set.2) a

def apply (cfg : Config) (r : Request) (outcome : Outcome) (a : Settings) : Settings :=
  assign (outcome.reach (r.sets cfg)).flatten a

theorem mask_disjoint {f g : Field} (haddr : f.addr = g.addr) (hne : f ≠ g) :
    f.mask &&& g.mask = 0 := by
  revert haddr hne
  cases f <;> cases g <;> decide

theorem settings_update (regs : Registers) (regAddr value : UInt8) (f : Field) :
    settings (Function.update regs regAddr value) f =
      if f.addr = regAddr then value.toBitVec &&& f.mask else settings regs f := by
  rw [settings]
  by_cases haddr : f.addr = regAddr
  · rw [if_pos haddr, haddr, Function.update_self]
  · rw [if_neg haddr, Function.update_of_ne haddr, settings]

theorem settings_writeBytes_congr {regs regs' : Registers} (h : settings regs = settings regs')
    (bytes : List UInt8) (regAddr : UInt8) :
    settings (writeBytes regAddr bytes regs) = settings (writeBytes regAddr bytes regs') := by
  induction bytes generalizing regAddr regs regs' with
  | nil => exact h
  | cons value bytes ih =>
      apply ih
      funext f
      rw [settings_update, settings_update, h]

theorem settings_change_congr {regs regs' : Registers} (h : settings regs = settings regs')
    (seen : UInt8) (outcome : Outcome) (access : Access) :
    settings (access.change seen outcome regs) = settings (access.change seen outcome regs') := by
  cases access with
  | regWrite regAddr value => exact settings_writeBytes_congr h _ _
  | regUpdate regAddr mask value =>
      simp only [Access.change]
      split
      · exact h
      · exact settings_writeBytes_congr h _ _
  | regWrite2 ichg ichargeRange => exact settings_writeBytes_congr h _ _

/-- The masks are written without the mutex. -/
def mfdBq2515xWriteIntMask (mask0 mask1 mask2 mask3 : UInt8) : Drift where
  val := writeBytes 0x07 [mask0, mask1, mask2, mask3]
  property regs := by
    funext f
    simp only [writeBytes, settings_update]
    cases f <;> rfl

theorem settings_update_field (regs : Registers) (f : Field) (value : BitVec 8) :
    settings (Function.update regs f.addr
        (UInt8.ofBitVec (update f.mask value (regs f.addr).toBitVec))) =
      Function.update (settings regs) f (value &&& f.mask) := by
  funext g
  rw [settings_update]
  by_cases haddr : g.addr = f.addr
  · rw [if_pos haddr]
    by_cases heq : g = f
    · subst heq
      rw [Function.update_self]
      exact update_and g.mask value (regs g.addr).toBitVec
    · rw [Function.update_of_ne heq, settings, haddr]
      exact update_and_of_disjoint (mask_disjoint haddr.symm (Ne.symm heq)) value _
  · have hne : g ≠ f := fun h => haddr (congrArg Field.addr h)
    rw [if_neg haddr, Function.update_of_ne hne]

theorem update_eq_self_and {mask value old : BitVec 8} (h : update mask value old = old) :
    value &&& mask = old &&& mask := by
  rw [← update_and mask value old, h]

theorem reach_nil {α : Type} (outcome : Outcome) : outcome.reach ([] : List α) = [] := by
  cases outcome with
  | ok => rfl
  | failed reached => exact List.take_nil

theorem reach_singleton (outcome : Outcome) :
    (∀ {α : Type} (x : α), outcome.reach [x] = [x]) ∨
      ∀ {α : Type} (x : α), outcome.reach [x] = [] := by
  cases outcome with
  | ok => exact Or.inl fun _ => rfl
  | failed reached =>
      cases reached with
      | zero => exact Or.inr fun _ => rfl
      | succ reached => exact Or.inl fun x => List.take_of_length_le (by simp)

theorem settings_regUpdate (f : Field) (value : UInt8) (outcome : Outcome) (regs : Registers) :
    settings ((Access.regUpdate f.addr f.maskByte value).change (regs f.addr) outcome regs) =
      assign (outcome.reach [[(f, value.toBitVec &&& f.mask)]]).flatten (settings regs) := by
  have hfield := settings_update_field regs f value.toBitVec
  change settings (if UInt8.ofBitVec (update f.mask value.toBitVec (regs f.addr).toBitVec) =
    regs f.addr then regs else writeBytes f.addr (outcome.reach [_]) regs) = _
  by_cases hsame :
      UInt8.ofBitVec (update f.mask value.toBitVec (regs f.addr).toBitVec) = regs f.addr
  · have hbits : value.toBitVec &&& f.mask = settings regs f := by
      rw [← UInt8.toBitVec_inj] at hsame
      exact update_eq_self_and hsame
    rw [if_pos hsame, hbits]
    rcases reach_singleton outcome with h | h
    · rw [h]
      exact (Function.update_eq_self f (settings regs)).symm
    · rw [h]
      rfl
  · rw [if_neg hsame]
    rcases reach_singleton outcome with h | h
    · rw [h, h]
      exact hfield
    · rw [h, h]
      rfl

theorem settings_update_sole {f : Field} (hsole : ∀ g, g.addr = f.addr → g = f)
    (regs : Registers) (value : UInt8) :
    settings (Function.update regs f.addr value) =
      Function.update (settings regs) f (value.toBitVec &&& f.mask) := by
  funext g
  rw [settings_update]
  by_cases heq : g = f
  · subst heq
    rw [if_pos rfl, Function.update_self]
  · rw [if_neg fun haddr => heq (hsole g haddr), Function.update_of_ne heq]

theorem settings_regWrite {f : Field} (hsole : ∀ g, g.addr = f.addr → g = f) (value : UInt8)
    (seen : UInt8) (outcome : Outcome) (regs : Registers) :
    settings ((Access.regWrite f.addr value).change seen outcome regs) =
      assign (outcome.reach [[(f, value.toBitVec &&& f.mask)]]).flatten (settings regs) := by
  simp only [Access.change]
  rcases reach_singleton outcome with h | h
  · rw [h, h]
    exact settings_update_sole hsole regs value
  · rw [h, h]
    rfl

theorem fieldPrepByte_eq (mask : BitVec 8) (value : Nat) :
    fieldPrepByte mask (BitVec.ofNat 32 value) = fieldPrep mask (BitVec.ofNat 8 value) := by
  rw [fieldPrepByte, setWidth_fieldPrep (by decide), BitVec.setWidth_setWidth_of_le _ (by decide),
    BitVec.setWidth_eq, BitVec.setWidth_ofNat_of_le (by decide)]

theorem settings_adcctrl0 (cfg : Config) {rest : BitVec 8}
    (hrate : rest &&& Field.adcReadRate.mask = 0) (hspeed : rest &&& Field.adcConvSpeed.mask = 0)
    (seen : UInt8) (outcome : Outcome) (regs : Registers) :
    settings ((Access.regWrite 0x40 (UInt8.ofBitVec (adcctrl0 cfg ||| rest))).change seen outcome
        regs) =
      assign (outcome.reach [Request.sets.adcFields cfg]).flatten (settings regs) := by
  have hread : (adcctrl0 cfg ||| rest) &&& Field.adcReadRate.mask =
      fieldPrep Field.adcReadRate.mask (BitVec.ofNat 8 cfg.readRate.toNat) := by
    rw [adcctrl0, fieldPrepByte_eq, fieldPrepByte_eq, BitVec.and_or_distrib_right,
      BitVec.and_or_distrib_right, hrate, fieldPrep_and_mask,
      fieldPrep_and_of_disjoint (by decide)]
    simp
  have hconv : (adcctrl0 cfg ||| rest) &&& Field.adcConvSpeed.mask =
      fieldPrep Field.adcConvSpeed.mask (BitVec.ofNat 8 cfg.convSpeed.toNat) := by
    rw [adcctrl0, fieldPrepByte_eq, fieldPrepByte_eq, BitVec.and_or_distrib_right,
      BitVec.and_or_distrib_right, hspeed, fieldPrep_and_mask,
      fieldPrep_and_of_disjoint (by decide)]
    simp
  have hfields : Request.sets.adcFields cfg =
      [(.adcReadRate, (adcctrl0 cfg ||| rest) &&& Field.adcReadRate.mask),
        (.adcConvSpeed, (adcctrl0 cfg ||| rest) &&& Field.adcConvSpeed.mask)] := by
    rw [hread, hconv]
    rfl
  rw [hfields]
  simp only [Access.change]
  rcases reach_singleton outcome with h | h
  · rw [h, h]
    funext f
    change settings (Function.update regs 0x40 _) f = _
    rw [settings_update]
    cases f <;> rfl
  · rw [h, h]
    rfl

theorem pchrgctrlWith_eq (ichargeRange : Bool) (seen : UInt8) :
    (pchrgctrlWith ichargeRange seen).toBitVec =
      update Field.ichargeRange.mask (if ichargeRange then Field.ichargeRange.mask else 0)
        seen.toBitVec := by
  apply BitVec.eq_of_getLsbD_eq
  intro i hi
  have hmask : pchrgctrlIchargeRange.toBitVec = Field.ichargeRange.mask := by decide
  rw [getLsbD_update]
  cases ichargeRange with
  | false =>
      simp only [pchrgctrlWith, Bool.false_eq_true, if_false, UInt8.toBitVec_and,
        UInt8.toBitVec_not, hmask, BitVec.getLsbD_and, BitVec.getLsbD_not]
      cases Field.ichargeRange.mask.getLsbD i <;> simp [hi]
  | true =>
      simp only [pchrgctrlWith, if_true, UInt8.toBitVec_or, hmask, BitVec.getLsbD_or]
      cases Field.ichargeRange.mask.getLsbD i <;> simp

theorem pchrgctrlWith_range (ichargeRange : Bool) (seen : UInt8) :
    (pchrgctrlWith ichargeRange seen).toBitVec &&& Field.ichargeRange.mask =
      if ichargeRange then Field.ichargeRange.mask else 0 := by
  rw [pchrgctrlWith_eq, update_and]
  split
  · exact BitVec.and_self
  · exact BitVec.zero_and

theorem pchrgctrlWith_precharge (ichargeRange : Bool) (seen : UInt8) :
    (pchrgctrlWith ichargeRange seen).toBitVec &&& Field.precharge.mask =
      seen.toBitVec &&& Field.precharge.mask := by
  rw [pchrgctrlWith_eq, update_and_of_disjoint
    (mask_disjoint (f := .ichargeRange) (g := .precharge) rfl (by decide))]

theorem settings_update_pchrgctrl {seen : UInt8} {regs : Registers}
    (hseen : seen.toBitVec &&& Field.precharge.mask = settings regs .precharge)
    (ichargeRange : Bool) :
    settings (Function.update regs pchrgctrlAddr (pchrgctrlWith ichargeRange seen)) =
      Function.update (settings regs) .ichargeRange
        (if ichargeRange then Field.ichargeRange.mask else 0) := by
  funext f
  rw [settings_update]
  by_cases haddr : f.addr = pchrgctrlAddr
  · rw [if_pos haddr]
    have hfield : f = .ichargeRange ∨ f = .precharge := by
      revert haddr
      cases f <;> decide
    rcases hfield with rfl | rfl
    · rw [Function.update_self]
      exact pchrgctrlWith_range ichargeRange seen
    · rw [Function.update_of_ne (by decide), ← hseen]
      exact pchrgctrlWith_precharge ichargeRange seen
  · have hne : f ≠ .ichargeRange := fun h => haddr (congrArg Field.addr h)
    rw [if_neg haddr, Function.update_of_ne hne]

theorem ichg_sole (g : Field) (h : g.addr = Field.ichg.addr) : g = .ichg := by
  revert h
  cases g <;> decide

theorem reach_pair (outcome : Outcome) :
    (∀ {α : Type} (x y : α), outcome.reach [x, y] = []) ∨
      (∀ {α : Type} (x y : α), outcome.reach [x, y] = [x]) ∨
        ∀ {α : Type} (x y : α), outcome.reach [x, y] = [x, y] := by
  cases outcome with
  | ok => exact Or.inr (Or.inr fun _ _ => rfl)
  | failed reached =>
      match reached with
      | 0 => exact Or.inl fun _ _ => rfl
      | 1 => exact Or.inr (Or.inl fun _ _ => rfl)
      | reached + 2 => exact Or.inr (Or.inr fun x y => List.take_of_length_le (by simp))

theorem settings_regWrite2 {seen : UInt8} {regs : Registers}
    (hseen : seen.toBitVec &&& Field.precharge.mask = settings regs .precharge) (ichg : UInt8)
    (ichargeRange : Bool) (outcome : Outcome) :
    settings ((Access.regWrite2 ichg ichargeRange).change seen outcome regs) =
      assign (outcome.reach [[(.ichg, ichg.toBitVec)],
        [(.ichargeRange, if ichargeRange then Field.ichargeRange.mask else 0)]]).flatten
        (settings regs) := by
  have hichg : settings (Function.update regs ichgCtrlAddr ichg) =
      Function.update (settings regs) .ichg ichg.toBitVec := by
    have hall : ichg.toBitVec &&& Field.ichg.mask = ichg.toBitVec := BitVec.and_allOnes
    rw [← hall]
    exact settings_update_sole ichg_sole regs ichg
  simp only [Access.change]
  rcases reach_pair outcome with h | h | h
  · rw [h, h]
    rfl
  · rw [h, h]
    exact hichg
  · rw [h, h]
    have hseen' : seen.toBitVec &&& Field.precharge.mask =
        settings (Function.update regs ichgCtrlAddr ichg) .precharge := by
      rw [hichg, Function.update_of_ne (by decide), hseen]
    have hboth := settings_update_pchrgctrl hseen' ichargeRange
    rw [hichg] at hboth
    exact hboth

theorem field_sole {f : Field} (hf : f = .ilim ∨ f = .pgMode ∨ f = .adcReadEn) (g : Field)
    (h : g.addr = f.addr) : g = f := by
  rcases hf with rfl | rfl | rfl <;> revert h <;> cases g <;> decide

theorem maToIlim_and_mask (ua : UInt32) :
    (maToIlim (ua / 1000)).toBitVec &&& Field.ilim.mask = (maToIlim (ua / 1000)).toBitVec := by
  have hlt := maToIlim_lt ua
  apply BitVec.eq_of_toNat_eq
  rw [BitVec.toNat_and]
  exact (Nat.and_two_pow_sub_one_eq_mod _ 3).trans (Nat.mod_eq_of_lt hlt)

theorem fresh_look (cfg : Config) (r : Request) (regs : Registers) :
    Fresh (protocol cfg) settings (apply cfg) r ((protocol cfg).look r regs) regs := by
  intro outcome
  cases r with
  | mfdInit =>
      have h := settings_regWrite (field_sole (f := .pgMode) (by decide))
        (UInt8.ofBitVec (fieldPrepByte Field.pgMode.mask (BitVec.ofNat 32 cfg.pgMode.toNat))) 0
        outcome regs
      rw [fieldPrepByte_eq, fieldPrep_and_mask] at h
      rw [apply, Request.sets, ← h, ← fieldPrepByte_eq]
      rfl
  | chargerInit =>
      have h := settings_regUpdate .watchdogDisable Field.watchdogDisable.maskByte outcome regs
      exact h
  | adcInitAdcctrl0 =>
      have h := settings_adcctrl0 cfg (BitVec.zero_and) (BitVec.zero_and) 0 outcome regs
      rw [BitVec.or_zero] at h
      exact h
  | adcInitReadEn =>
      exact settings_regWrite (field_sole (f := .adcReadEn) (by decide)) 0xfe 0 outcome regs
  | chargeEnable enable =>
      cases enable with
      | true => exact settings_regUpdate .chargerDisable 0 outcome regs
      | false =>
          exact settings_regUpdate .chargerDisable Field.chargerDisable.maskByte outcome regs
  | setChargeCurrent ua => exact settings_regWrite2 rfl _ _ outcome
  | setInputCurrentLimit ua =>
      have h := settings_regWrite (field_sole (f := .ilim) (by decide))
        (maToIlim (ua / 1000)) 0 outcome regs
      rw [maToIlim_and_mask] at h
      rw [apply, Request.sets, ← h, ← fieldPrep_ilim (maToIlim_lt ua)]
      rfl
  | shipMode => exact settings_regUpdate .enShipMode Field.enShipMode.maskByte outcome regs
  | ldoEnable => exact settings_regUpdate .enLsLdo Field.enLsLdo.maskByte outcome regs
  | ldoDisable => exact settings_regUpdate .enLsLdo 0 outcome regs
  | ldoSetMode mode =>
      simp only [protocol, Request.access, regulatorBq2515xLdoSetMode, apply, Request.sets]
      by_cases hldo : mode = regulatorModeLdo
      · rw [if_pos hldo, if_pos hldo]
        exact settings_regUpdate .ldoSwitchConfig 0 outcome regs
      · rw [if_neg hldo, if_neg hldo]
        by_cases hswitch : mode = regulatorModeLoadSwitch
        · rw [if_pos hswitch, if_pos hswitch]
          exact settings_regUpdate .ldoSwitchConfig Field.ldoSwitchConfig.maskByte outcome regs
        · rw [if_neg hswitch, if_neg hswitch, reach_nil]
          rfl
  | ldoSetVoltage minUv maxUv =>
      simp only [protocol, Request.access, regulatorBq2515xLdoSetVoltage, apply, Request.sets]
      cases cfg.ldoRange.getWinIndex minUv maxUv with
      | error ret =>
          simp only [reach_nil]
          rfl
      | ok idx =>
          have h := settings_regUpdate .vldo
            (UInt8.ofBitVec (fieldPrepByte Field.vldo.mask (BitVec.ofNat 32 idx.toNat))) outcome
            regs
          rw [fieldPrepByte_eq, fieldPrep_and_mask] at h
          rw [← h, ← fieldPrepByte_eq]
          rfl
  | sampleFetch stat0 =>
      simp only [protocol, Request.access, bq2515xAdcSampleFetch, apply, Request.sets]
      by_cases hmanual : cfg.readRate = 0 ∧ stat0 &&& 0x01 = 0
      · rw [if_pos hmanual, if_pos hmanual]
        exact settings_adcctrl0 cfg (by decide) (by decide) 0 outcome regs
      · rw [if_neg hmanual, if_neg hmanual, reach_nil]
        rfl

theorem access_of_unlocked {cfg : Config} {r : Request} (h : (protocol cfg).locked r = false) :
    ∃ ichg ichargeRange, r.access cfg = some (.regWrite2 ichg ichargeRange) := by
  simp only [protocol] at h
  cases haccess : r.access cfg with
  | none =>
      rw [haccess] at h
      exact absurd h.symm Bool.false_ne_true
  | some access =>
      rw [haccess] at h
      cases access with
      | regWrite regAddr value => exact absurd h.symm Bool.false_ne_true
      | regUpdate regAddr mask value => exact absurd h.symm Bool.false_ne_true
      | regWrite2 ichg ichargeRange => exact ⟨ichg, ichargeRange, rfl⟩

theorem assign_of_forall_ne {f : Field} {sets : List (Field × BitVec 8)}
    (h : ∀ set ∈ sets, set.1 ≠ f) (a : Settings) : assign sets a f = a f := by
  induction sets generalizing a with
  | nil => rfl
  | cons set sets ih =>
      rw [assign, List.foldl_cons]
      refine (ih (fun s hs => h s (List.mem_cons_of_mem set hs)) _).trans ?_
      exact Function.update_of_ne (h set List.mem_cons_self).symm _ _

theorem mem_of_mem_reach {α : Type} {outcome : Outcome} {bytes : List α} {x : α}
    (h : x ∈ outcome.reach bytes) : x ∈ bytes := by
  cases outcome with
  | ok => exact h
  | failed reached => exact List.mem_of_mem_take h

theorem sets_fields (cfg : Config) (r : Request) :
    ∀ set ∈ (r.sets cfg).flatten, set.1 ∈ r.fields := by
  cases r with
  | ldoSetMode mode =>
      simp only [Request.sets]
      split
      · simp [Request.fields]
      · split <;> simp [Request.fields]
  | ldoSetVoltage minUv maxUv =>
      simp only [Request.sets]
      split <;> simp [Request.fields]
  | sampleFetch stat0 =>
      simp only [Request.sets]
      split <;> simp [Request.sets.adcFields, Request.fields]
  | _ => simp [Request.sets, Request.sets.adcFields, Request.fields]

theorem apply_of_notMem {cfg : Config} {r : Request} {f : Field} (h : f ∉ r.fields)
    (outcome : Outcome) (a : Settings) : apply cfg r outcome a f = a f := by
  apply assign_of_forall_ne
  intro set hset heq
  obtain ⟨byte, hbyte, hmem⟩ := List.mem_flatten.mp hset
  have hfield := sets_fields cfg r set
    (List.mem_flatten.mpr ⟨byte, mem_of_mem_reach hbyte, hmem⟩)
  exact h (heq ▸ hfield)

theorem precharge_notMem (r : Request) : .precharge ∉ r.fields := by
  cases r <;> simp [Request.fields]

theorem fresh_of_precharge {cfg : Config} {r : Request} {seen : UInt8} {regs : Registers}
    (hlocked : (protocol cfg).locked r = false)
    (hseen : seen.toBitVec &&& Field.precharge.mask = settings regs .precharge) :
    Fresh (protocol cfg) settings (apply cfg) r seen regs := by
  obtain ⟨ichg, ichargeRange, haccess⟩ := access_of_unlocked hlocked
  intro outcome
  rw [← fresh_look cfg r regs outcome]
  simp only [protocol, haccess]
  exact (settings_regWrite2 hseen ichg ichargeRange outcome).trans
    (settings_regWrite2 rfl ichg ichargeRange outcome).symm

theorem Fresh.precharge {cfg : Config} {r : Request} {seen : UInt8} {regs : Registers}
    (hlocked : (protocol cfg).locked r = false)
    (h : Fresh (protocol cfg) settings (apply cfg) r seen regs) :
    seen.toBitVec &&& Field.precharge.mask = settings regs .precharge := by
  obtain ⟨ichg, ichargeRange, haccess⟩ := access_of_unlocked hlocked
  have hok := congrFun (h .ok) .precharge
  rw [apply_of_notMem (precharge_notMem r)] at hok
  rw [← hok]
  simp only [protocol, haccess]
  exact (pchrgctrlWith_precharge ichargeRange seen).symm

theorem atomic (cfg : Config) : Atomic (protocol cfg) settings (apply cfg) where
  fresh r regs := fresh_look cfg r regs
  drift d regs := d.property regs
  congr r seen outcome regs regs' h := by
    simp only [protocol]
    cases r.access cfg with
    | none => exact h
    | some access => exact settings_change_congr h seen outcome access
  stable r seen r' seen' outcome regs hlocked h h' := by
    apply fresh_of_precharge hlocked
    rw [Fresh.precharge hlocked h, h' outcome, apply_of_notMem (precharge_notMem r')]

/-- Whichever threads call the drivers, and however their accesses are interleaved
and fail, the settings in the chip are those of the calls one after the other. -/
theorem settings_follow_calls {T : Type} [DecidableEq T] (cfg : Config) (regs : Registers)
    (events : List (Event T Request Outcome Drift)) :
    let s := run (step (protocol cfg)) (initial regs) events
    settings s.shared = replay (apply cfg) s.log (settings regs) :=
  replay_run (atomic cfg) regs events

def regulatorBq2515xLdoGetVoltage (range : LinearRange) (io : Int) (regs : Registers) :
    Except Int Int :=
  match mfdRegRead io 0x1d regs with
  | .error ret => .error ret
  | .ok ldoctrl =>
      -- the mask is not zero
      let idx := (fieldGet Field.vldo.mask ldoctrl.toBitVec).getD 0
      range.getValue (UInt16.ofNat idx.toNat)

section

variable {T : Type} {cfg : Config}

theorem replay_of_notMem {f : Field} {log : List (T × Request × Outcome)}
    (h : ∀ entry ∈ log, f ∉ entry.2.1.fields) (a : Settings) :
    replay (apply cfg) log a f = a f := by
  induction log generalizing a with
  | nil => rfl
  | cons entry log ih =>
      rw [replay, List.foldl_cons]
      refine (ih (fun e he => h e (List.mem_cons_of_mem entry he)) _).trans ?_
      exact apply_of_notMem (h entry List.mem_cons_self) _ a

theorem replay_last {f : Field} {before after : List (T × Request × Outcome)} {t : T}
    {r : Request} (hlast : ∀ entry ∈ after, f ∉ entry.2.1.fields) (a : Settings) :
    replay (apply cfg) (before ++ (t, r, .ok) :: after) a f =
      assign (r.sets cfg).flatten (replay (apply cfg) before a) f := by
  rw [replay, List.foldl_append, List.foldl_cons]
  exact replay_of_notMem hlast _

theorem regulatorBq2515xLdoGetVoltage_eq {range : LinearRange} {idx : UInt16} {regs : Registers}
    (hidx : idx.toNat ≤ 31)
    (hvldo : settings regs .vldo = fieldPrep Field.vldo.mask (BitVec.ofNat 8 idx.toNat)) :
    regulatorBq2515xLdoGetVoltage range 0 regs = range.getValue idx := by
  have hvalue : (BitVec.ofNat 8 idx.toNat).toNat = idx.toNat := by
    rw [BitVec.toNat_ofNat]
    exact Nat.mod_eq_of_lt (by omega)
  have hget : fieldGet Field.vldo.mask (regs Field.vldo.addr).toBitVec =
      some (BitVec.ofNat 8 idx.toNat) := by
    have hfield : fieldGet Field.vldo.mask (fieldPrep Field.vldo.mask (BitVec.ofNat 8 idx.toNat)) =
        some (BitVec.ofNat 8 idx.toNat) :=
      fieldGet_fieldPrep (by decide) (by decide) (by rw [hvalue]; omega)
    rw [← hfield]
    exact fieldGet_congr (hvldo.trans (fieldPrep_and_mask _ _).symm)
  change range.getValue (UInt16.ofNat
    ((fieldGet Field.vldo.mask (regs Field.vldo.addr).toBitVec).getD 0).toNat) = _
  rw [hget, Option.getD_some, hvalue, UInt16.ofNat_toNat]

theorem rangeSet_of_bits {pchrgctrl : UInt8} {ichargeRange : Bool}
    (h : pchrgctrl.toBitVec &&& Field.ichargeRange.mask =
      if ichargeRange then Field.ichargeRange.mask else 0) : rangeSet pchrgctrl = ichargeRange := by
  have hmask : pchrgctrlIchargeRange.toBitVec = Field.ichargeRange.mask := by decide
  have hbits : (pchrgctrl &&& pchrgctrlIchargeRange).toBitVec =
      if ichargeRange then Field.ichargeRange.mask else 0 := by
    rw [UInt8.toBitVec_and, hmask, h]
  rw [rangeSet, Bool.eq_iff_iff, bne_iff_ne, ne_eq, ← UInt8.toBitVec_inj, hbits]
  cases ichargeRange <;> decide

theorem programmed_of_settings {ua : UInt32} {regs : Registers}
    (hichg : settings regs .ichg = (uaToIchg ua).1.toBitVec)
    (hrange : settings regs .ichargeRange =
      if (uaToIchg ua).2 then Field.ichargeRange.mask else 0) :
    programmedUa regs ≤ clampedUa ua ∧ clampedUa ua < programmedUa regs + stepUa regs := by
  have hbyte : regs ichgCtrlAddr = (uaToIchg ua).1 := by
    have hall : (regs ichgCtrlAddr).toBitVec &&& Field.ichg.mask = (regs ichgCtrlAddr).toBitVec :=
      BitVec.and_allOnes
    rw [← UInt8.toBitVec_inj, ← hichg, ← hall]
    rfl
  have hset : rangeSet (regs pchrgctrlAddr) = (uaToIchg ua).2 := rangeSet_of_bits hrange
  rw [programmedUa, stepUa, hbyte, hset]
  rcases uaToIchg_spec ua with ⟨hval, hfine, -⟩ | ⟨hval, hcoarse, -⟩
  · rw [hval, hfine, if_neg Bool.false_ne_true]
    exact ⟨Nat.div_mul_le_self _ _, Nat.lt_div_mul_add (by decide)⟩
  · rw [hval, hcoarse, if_pos rfl]
    exact ⟨Nat.div_mul_le_self _ _, Nat.lt_div_mul_add (by decide)⟩

variable [DecidableEq T]

/-- The chip after some calls of the drivers. -/
def after (cfg : Config) (regs : Registers) (events : List (Event T Request Outcome Drift)) :
    State T Registers UInt8 Request Outcome :=
  run (step (protocol cfg)) (initial regs) events

theorem after_alone (regs : Registers) (t : T) (ua : UInt32) :
    (after cfg regs [.call t (.setChargeCurrent ua), .look t, .change t .ok]).shared =
        (setChargeCurrent {} ua regs).2 ∧
      (after cfg regs [.call t (.setInputCurrentLimit ua), .look t, .change t .ok]).shared =
        (setInputCurrentLimit 0 ua regs).2 :=
  ⟨run_alone (protocol cfg) regs t (.setChargeCurrent ua) .ok,
    run_alone (protocol cfg) regs t (.setInputCurrentLimit ua) .ok⟩

theorem voltage_in_window {regs : Registers} {events : List (Event T Request Outcome Drift)}
    {before rest : List (T × Request × Outcome)} {t : T} {minUv maxUv : Int} {idx : UInt16}
    (hlog : (after cfg regs events).log = before ++ (t, .ldoSetVoltage minUv maxUv, .ok) :: rest)
    (hidx : cfg.ldoRange.getWinIndex minUv maxUv = .ok idx)
    (hlast : ∀ entry ∈ rest, .vldo ∉ entry.2.1.fields) :
    ∃ uv, regulatorBq2515xLdoGetVoltage cfg.ldoRange 0 (after cfg regs events).shared = .ok uv ∧
      minUv ≤ uv ∧ uv ≤ maxUv := by
  have hvldo := congrFun (replay_run (atomic cfg) regs events) .vldo
  obtain ⟨uv, hvalue, hwindow⟩ := cfg.ldoRange.value_mem minUv maxUv idx hidx
  refine ⟨uv, ?_, hwindow⟩
  rw [after] at hlog ⊢
  rw [hlog, replay_last hlast, Request.sets, hidx] at hvldo
  have hset : settings (run (step (protocol cfg)) (initial regs) events).shared .vldo =
      fieldPrep Field.vldo.mask (BitVec.ofNat 8 idx.toNat) :=
    hvldo.trans
      (Function.update_self Field.vldo _ (replay (apply cfg) before (settings regs)))
  rw [regulatorBq2515xLdoGetVoltage_eq (cfg.ldoRange.index_le minUv maxUv idx hidx) hset, hvalue]

theorem current_programmed {regs : Registers} {events : List (Event T Request Outcome Drift)}
    {before rest : List (T × Request × Outcome)} {t : T} {ua : UInt32}
    (hlog : (after cfg regs events).log = before ++ (t, .setChargeCurrent ua, .ok) :: rest)
    (hlast : ∀ entry ∈ rest, .ichg ∉ entry.2.1.fields) :
    let regs' := (after cfg regs events).shared
    programmedUa regs' ≤ clampedUa ua ∧ clampedUa ua < programmedUa regs' + stepUa regs' := by
  have hreplay := replay_run (atomic cfg) regs events
  have hrange : ∀ entry ∈ rest, .ichargeRange ∉ entry.2.1.fields := by
    intro entry hentry
    have hnot := hlast entry hentry
    cases hr : entry.2.1 with
    | setChargeCurrent ua => simp [hr, Request.fields] at hnot
    | _ => simp [Request.fields]
  rw [after] at hlog ⊢
  apply programmed_of_settings
  · rw [hreplay, hlog, replay_last hlast]
    rfl
  · rw [hreplay, hlog, replay_last hrange]
    rfl

/-- The voltage and the charge current are those of the last calls that set them,
whatever the other threads do in between. -/
theorem last_calls_hold (regs : Registers) (events : List (Event T Request Outcome Drift))
    {beforeV restV beforeC restC : List (T × Request × Outcome)} {t t' : T} {minUv maxUv : Int}
    {ua : UInt32} {idx : UInt16}
    (hvoltage : (after cfg regs events).log =
      beforeV ++ (t, .ldoSetVoltage minUv maxUv, .ok) :: restV)
    (hidx : cfg.ldoRange.getWinIndex minUv maxUv = .ok idx)
    (hvldo : ∀ entry ∈ restV, .vldo ∉ entry.2.1.fields)
    (hcurrent : (after cfg regs events).log = beforeC ++ (t', .setChargeCurrent ua, .ok) :: restC)
    (hichg : ∀ entry ∈ restC, .ichg ∉ entry.2.1.fields) :
    let regs' := (after cfg regs events).shared
    (∃ uv, regulatorBq2515xLdoGetVoltage cfg.ldoRange 0 regs' = .ok uv ∧
        minUv ≤ uv ∧ uv ≤ maxUv) ∧
      programmedUa regs' ≤ clampedUa ua ∧ clampedUa ua < programmedUa regs' + stepUa regs' :=
  ⟨voltage_in_window hvoltage hidx hvldo, current_programmed hcurrent hichg⟩

end

/-- From 0.6 V in steps of 0.1 V. -/
def ldoRange : LinearRange where
  getWinIndex minUv maxUv :=
    if maxUv < 600000 ∨ 3700000 < minUv then .error (-22)
    else if minUv < 600000 ∨ 3700000 < maxUv then .error (-34)
    else if maxUv < 600000 + 100000 * ((minUv - 600000 + 99999) / 100000) then .error (-22)
    else .ok (UInt16.ofNat ((minUv - 600000 + 99999) / 100000).toNat)
  getValue idx := if 31 < idx then .error (-22) else .ok (600000 + 100000 * (idx.toNat : Int))
  index_le minUv maxUv idx h := by
    split at h
    · exact nomatch h
    · split at h
      · exact nomatch h
      · split at h
        · exact nomatch h
        · rename_i hin hnear hwindow
          obtain rfl := Except.ok.inj h
          rw [UInt16.toNat_ofNat']
          omega
  value_mem minUv maxUv idx h := by
    split at h
    · exact nomatch h
    · split at h
      · exact nomatch h
      · split at h
        · exact nomatch h
        · rename_i hin hnear hwindow
          obtain rfl := Except.ok.inj h
          have hle : ((minUv - 600000 + 99999) / 100000).toNat ≤ 31 := by omega
          have hidx : (UInt16.ofNat ((minUv - 600000 + 99999) / 100000).toNat).toNat =
              ((minUv - 600000 + 99999) / 100000).toNat := by
            rw [UInt16.toNat_ofNat']
            omega
          refine ⟨600000 + 100000 * ((minUv - 600000 + 99999) / 100000), ?_, ?_, ?_⟩
          · rw [if_neg]
            · rw [hidx]
              congr 2
              omega
            · rw [UInt16.lt_iff_toNat_lt, hidx]
              change ¬ 31 < _
              omega
          · omega
          · omega

theorem two_threads_set :
    let cfg : Config := ⟨ldoRange, 0, 0, 0⟩
    let events : List (Event Bool Request Outcome Drift) :=
      [.call true (.ldoSetVoltage 1800000 1800000), .call false (.setChargeCurrent 400000),
        .look true, .look false, .change true .ok, .call true (.setChargeCurrent 100000),
        .look true, .change true .ok, .drift (mfdBq2515xWriteIntMask 0 0 0 0),
        .change false .ok]
    let regs' := (after cfg (fun _ => 0) events).shared
    (∃ uv, regulatorBq2515xLdoGetVoltage ldoRange 0 regs' = .ok uv ∧
        1800000 ≤ uv ∧ uv ≤ 1800000) ∧
      programmedUa regs' ≤ clampedUa 400000 ∧
        clampedUa 400000 < programmedUa regs' + stepUa regs' := by
  intro cfg events
  have hvoltage : (after cfg (fun _ => 0) events).log = [] ++
      (true, .ldoSetVoltage 1800000 1800000, .ok) ::
        [(true, .setChargeCurrent 100000, .ok), (false, .setChargeCurrent 400000, .ok)] := rfl
  have hcurrent : (after cfg (fun _ => 0) events).log =
      [(true, .ldoSetVoltage 1800000 1800000, .ok), (true, .setChargeCurrent 100000, .ok)] ++
        (false, .setChargeCurrent 400000, .ok) :: [] := rfl
  exact last_calls_hold _ _ hvoltage rfl (by decide) hcurrent (by decide)

end ZeusLe.ChargerRegisters
