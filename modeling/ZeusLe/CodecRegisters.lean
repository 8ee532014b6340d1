import ZeusLe.Library.Run
import ZeusLe.CodecProperties

/-!
The accesses to the registers of the audio codec, `tlv320adcx120.c`: the page they
are on, the power management around them, and what a read reports.
-/

namespace ZeusLe.CodecRegisters

open ZeusLe.InputCodec
open ZeusLe.CodecProperties
open ZeusLe.Library.Run

/-- `struct reg_addr`. -/
structure Reg where
  page : UInt8
  regAddr : UInt8
  deriving DecidableEq, Repr

def Reg.addr (reg : Reg) : RegAddr :=
  ⟨reg.page.toNat, reg.regAddr.toNat⟩

def regOf (reg : RegAddr) : Reg :=
  ⟨UInt8.ofNat reg.page, UInt8.ofNat reg.regAddr⟩

def pageCfgAddr : UInt8 := 0

/-- The codec: its registers, and the page that is selected. -/
structure Device where
  regs : RegAddr → UInt8
  page : UInt8

def Device.byte (d : Device) (regAddr : UInt8) : UInt8 :=
  if regAddr = pageCfgAddr then d.page else d.regs (Reg.mk d.page regAddr).addr

structure State where
  device : Device
  regPageCache : UInt8
  channels : Nat → ChannelData

/-- The codec without its pages. -/
def State.codec (s : State) : Codec :=
  ⟨s.device.regs, s.channels⟩

/-- A transfer that writes. Also one that fails can have reached the device. -/
structure Transfer where
  ret : Int
  done : Bool
  deriving DecidableEq, Repr

structure WriteIo where
  select : Transfer
  data : Transfer
  deriving DecidableEq, Repr

/-- `pm_device_runtime_get`; `resume` is the access of a device that is suspended. -/
structure PmIo where
  ret : Int
  resume : Option WriteIo
  deriving DecidableEq, Repr

structure WriteRegIo extends WriteIo where
  pm : PmIo
  deriving DecidableEq, Repr

structure ReadIo where
  pm : PmIo
  select : Transfer
  data : Int
  deriving DecidableEq, Repr

section

variable (driver : DriverConfig)

/-- What a byte that is written does to the device. -/
def Device.write (d : Device) (regAddr val : UInt8) : Device :=
  if regAddr = pageCfgAddr then { d with page := val }
  else if (Reg.mk d.page regAddr).addr = swResetAddr ∧ val &&& swResetAssert ≠ 0 then
    ⟨driver.reset.val, 0⟩
  else { d with regs := Function.update d.regs (Reg.mk d.page regAddr).addr val }

def i2cRegWriteByte (io : Transfer) (regAddr val : UInt8) (s : State) : Int × State :=
  (io.ret, if 0 ≤ io.ret ∨ io.done then { s with device := s.device.write driver regAddr val }
    else s)

/-- The byte is left as it is where the transfer fails. -/
def i2cRegReadByte (io : Int) (regAddr val : UInt8) (s : State) : Int × UInt8 :=
  (io, if 0 ≤ io then s.device.byte regAddr else val)

def setPage (io : Transfer) (page : UInt8) (s : State) : Int × State :=
  if s.regPageCache ≠ page then
    let (ret, s) := i2cRegWriteByte driver io pageCfgAddr page s
    if ret < 0 then (ret, s) else (ret, { s with regPageCache := page })
  else (0, s)

def codecWriteRegNoPm (io : WriteIo) (reg : Reg) (val : UInt8) (s : State) : Int × State :=
  let (ret, s) := setPage driver io.select reg.page s
  if ret < 0 then (ret, s)
  else
    let (ret, s) := i2cRegWriteByte driver io.data reg.regAddr val s
    if ret < 0 then (ret, s) else (0, s)

def codecConfigurePower (io : WriteIo) (sleep : Bool) (s : State) : Int × State :=
  codecWriteRegNoPm driver io (regOf sleepCfgAddr)
    ((if driver.internalAreg then sleepCfgAregSelect else 0) |||
      if sleep then 0 else sleepCfgSleepEnz) s

def pmDeviceRuntimeGet (io : PmIo) (s : State) : Int × State :=
  match io.resume with
  | none => (io.ret, s)
  | some resume =>
      let (ret, s) := codecConfigurePower driver resume false s
      if ret ≠ 0 then (ret, s) else (io.ret, s)

def codecWriteReg (io : WriteRegIo) (reg : Reg) (val : UInt8) (s : State) : Int × State :=
  let (ret, s) := pmDeviceRuntimeGet driver io.pm s
  if ret ≠ 0 then (ret, s) else codecWriteRegNoPm driver io.toWriteIo reg val s

/-- The result, and what is then in `val`. -/
def codecReadReg (io : ReadIo) (reg : Reg) (val : UInt8) (s : State) : Int × UInt8 × State :=
  let (ret, s) := pmDeviceRuntimeGet driver io.pm s
  if ret ≠ 0 then (ret, val, s)
  else
    let (ret, s) := setPage driver io.select reg.page s
    if ret < 0 then (ret, val, s)
    else
      -- The result of the transfer is not assigned to `ret`.
      let (_, val) := i2cRegReadByte io.data reg.regAddr val s
      if ret < 0 then (ret, val, s) else (0, val, s)

def codecSoftReset (io : WriteRegIo) (s : State) : Int × State :=
  let (ret, s) := codecWriteReg driver io (regOf swResetAddr) swResetAssert s
  if ret ≠ 0 then (ret, s)
  else (0, { s with regPageCache := 0, channels := fun _ => ⟨false, codecDefaultDvol⟩ })

/-- `linear_range_get_value` returns 0 or an error. -/
structure LinearRangeStatus extends LinearRangeUtils where
  getValue_error : ∀ r idx ret, getValue r idx = .error ret → ret ≠ 0

/-- The result, and what is then in the caller's variable. -/
def assign {α : Type} (r : Except Int α) (val : α) : Int × α :=
  match r with
  | .error ret => (ret, val)
  | .ok val => (0, val)

variable (linearRange : LinearRangeStatus)

/-- `stack` is the byte in `val` before it is read. -/
def codecGetAnalogGain (io : ReadIo) (stack : UInt8) (channel : Nat) (gain : Int) (s : State) :
    Int × Int × State :=
  if channel < 1 ∨ channel > codecNumAnalogChannels then (-enotsup, gain, s)
  else
    let (ret, val, s) := codecReadReg driver io (regOf (chCfg1Addr channel)) stack s
    if ret ≠ 0 then (ret, gain, s)
    else
      let (ret, gain) := assign (linearRange.getValue analogGainRange (chCfg1Gain.get val)) gain
      (ret, gain, s)

def codecGetImpedance (io : ReadIo) (stack : UInt8) (channel : Nat) (impedance : UInt32)
    (s : State) : Int × UInt32 × State :=
  if channel < 1 ∨ channel > codecNumChannels then (-einval, impedance, s)
  else if channel > codecNumAnalogChannels then (-enotsup, impedance, s)
  else
    let (ret, val, s) := codecReadReg driver io (regOf (chCfg0Addr channel)) stack s
    if ret ≠ 0 then (ret, impedance, s)
    else
      let (ret, impedance) := assign (impedanceAt (chCfg0Imp.get val)) impedance
      (ret, impedance, s)

def codecGetProperty (io : ReadIo) (stack : UInt8) (property : Property) (channel : AudioChannel)
    (val : PropertyValue) (s : State) : Int × PropertyValue × State :=
  match codecChannelToIndex channel with
  | .error ret => (ret, val, s)
  | .ok channel =>
      match property with
      | .analogGain =>
          let (ret, gain, s) := codecGetAnalogGain driver linearRange io stack channel val.gain s
          (ret, .ofGain gain, s)
      | .digitalGain =>
          let (ret, gain) :=
            assign (codecGetDigitalGain linearRange.toLinearRangeUtils channel s.codec) val.gain
          (ret, .ofGain gain, s)
      | .mute =>
          match codecGetMute channel s.codec with
          | .error ret => (ret, val, s)
          | .ok mute => (0, ⟨if mute then 1 else 0⟩, s)
      | .impedance =>
          let (ret, impedance, s) :=
            codecGetImpedance driver io stack channel val.impedance s
          (ret, ⟨impedance⟩, s)
      | .source => (-enotsup, val, s)

end

section

variable (driver : DriverConfig)

def ready (io : ReadIo) (s : State) : State :=
  (pmDeviceRuntimeGet driver io.pm s).2

def Ready (io : ReadIo) (s : State) : Prop :=
  (pmDeviceRuntimeGet driver io.pm s).1 = 0

/-- The page is selected, or the transfer that selects it fails. -/
def Selects (io : ReadIo) (reg : Reg) (s : State) : Prop :=
  Ready driver io s ∧ (ready driver io s).regPageCache ≠ reg.page

/-- The byte is read, or the transfer that reads it fails. -/
def DataRead (io : ReadIo) (reg : Reg) (s : State) : Prop :=
  Ready driver io s ∧ (Selects driver io reg s → 0 ≤ io.select.ret)

/-- A step of `codec_read_reg` fails with `ret`. -/
def Failed (io : ReadIo) (reg : Reg) (s : State) (ret : Int) : Prop :=
  (¬ Ready driver io s ∧ ret = (pmDeviceRuntimeGet driver io.pm s).1) ∨
    (Selects driver io reg s ∧ io.select.ret < 0 ∧ ret = io.select.ret) ∨
    (DataRead driver io reg s ∧ io.data < 0 ∧ ret = io.data)

/-- A failure is returned, and what is returned without one is the byte of the
register on its page. -/
def ReadReported (io : ReadIo) (reg : Reg) (val : UInt8) (s : State) : Prop :=
  let (ret, val, s') := codecReadReg driver io reg val s
  (∀ failure, Failed driver io reg s failure → ret = failure) ∧
    (ret = 0 → DataRead driver io reg s ∧ 0 ≤ io.data ∧ s'.device.page = reg.page ∧
      val = s'.device.byte reg.regAddr)

/-- The byte is read without a failure, and where the page is not selected again
it is the one the device has. -/
def ReadSound (io : ReadIo) (reg : Reg) (s : State) : Prop :=
  DataRead driver io reg s →
    0 ≤ io.data ∧ ((ready driver io s).regPageCache = reg.page →
      (ready driver io s).device.page = reg.page)

variable {driver} {io : ReadIo} {reg : Reg} {s : State}

theorem setPage_of_eq {transfer : Transfer} {page : UInt8} (h : s.regPageCache = page) :
    setPage driver transfer page s = (0, s) := by
  rw [setPage, if_neg (not_not.mpr h)]

variable (driver) in
theorem setPage_of_ne (transfer : Transfer) {page : UInt8} (h : s.regPageCache ≠ page) :
    (setPage driver transfer page s).1 = transfer.ret ∧
      (0 ≤ transfer.ret → (setPage driver transfer page s).2 =
        { s with device := { s.device with page := page }, regPageCache := page }) := by
  have hfst : (i2cRegWriteByte driver transfer pageCfgAddr page s).1 = transfer.ret := rfl
  rcases Int.lt_or_le transfer.ret 0 with hret | hret
  · rw [← hfst] at hret
    simp only [setPage, if_pos h, if_pos hret]
    exact ⟨hfst, fun hok => absurd hret (Int.not_lt.mpr hok)⟩
  · have hnot : ¬ (i2cRegWriteByte driver transfer pageCfgAddr page s).1 < 0 :=
      Int.not_lt.mpr hret
    simp only [setPage, if_pos h, if_neg hnot]
    refine ⟨hfst, fun _ => ?_⟩
    rw [i2cRegWriteByte, if_pos (Or.inl hret)]
    rfl

theorem codecReadReg_of_not_ready (h : ¬ Ready driver io s) (reg : Reg) (val : UInt8) :
    codecReadReg driver io reg val s =
      ((pmDeviceRuntimeGet driver io.pm s).1, val, ready driver io s) := by
  have hret : (pmDeviceRuntimeGet driver io.pm s).1 ≠ 0 := h
  simp only [codecReadReg, if_pos hret, ready]

theorem codecReadReg_of_selects (h : Selects driver io reg s) (hret : io.select.ret < 0)
    (val : UInt8) : ∃ s', codecReadReg driver io reg val s = (io.select.ret, val, s') := by
  obtain ⟨hready, hpage⟩ := h
  obtain ⟨hselect, -⟩ := setPage_of_ne driver io.select hpage
  have hpm : (pmDeviceRuntimeGet driver io.pm s).1 = 0 := hready
  rw [ready] at hselect
  refine ⟨(setPage driver io.select reg.page (ready driver io s)).2, ?_⟩
  simp only [codecReadReg, if_neg (not_not.mpr hpm), hselect, if_pos hret, ready]

theorem setPage_of_dataRead (h : DataRead driver io reg s) :
    0 ≤ (setPage driver io.select reg.page (ready driver io s)).1 ∧
      ((setPage driver io.select reg.page (ready driver io s)).2.device.page = reg.page ↔
        ((ready driver io s).regPageCache = reg.page →
          (ready driver io s).device.page = reg.page)) := by
  obtain ⟨hready, hselects⟩ := h
  rcases eq_or_ne (ready driver io s).regPageCache reg.page with heq | hne
  · rw [setPage_of_eq heq]
    exact ⟨Int.le_refl 0, fun hpage _ => hpage, fun hpage => hpage heq⟩
  · have hret := hselects ⟨hready, hne⟩
    obtain ⟨hselect, hselected⟩ := setPage_of_ne driver io.select hne
    rw [hselect, hselected hret]
    exact ⟨hret, fun _ heq => absurd heq hne, fun _ => rfl⟩

theorem codecReadReg_of_dataRead (h : DataRead driver io reg s) (val : UInt8) :
    codecReadReg driver io reg val s =
      (0, (i2cRegReadByte io.data reg.regAddr val
        (setPage driver io.select reg.page (ready driver io s)).2).2,
        (setPage driver io.select reg.page (ready driver io s)).2) := by
  obtain ⟨hret, -⟩ := setPage_of_dataRead h
  have hpm : (pmDeviceRuntimeGet driver io.pm s).1 = 0 := h.1
  rw [ready] at hret
  simp only [codecReadReg, if_neg (not_not.mpr hpm), if_neg (Int.not_lt.mpr hret), ready]

variable (driver) in
theorem failed_or_dataRead (io : ReadIo) (reg : Reg) (val : UInt8) (s : State) :
    (∃ failure, failure ≠ 0 ∧ ¬ DataRead driver io reg s ∧
      (∀ other, Failed driver io reg s other → other = failure) ∧
      ∃ s', codecReadReg driver io reg val s = (failure, val, s')) ∨
      DataRead driver io reg s := by
  rcases Classical.em (Ready driver io s) with hready | hready
  · rcases Classical.em (Selects driver io reg s ∧ io.select.ret < 0) with hfail | hfail
    · obtain ⟨hselects, hret⟩ := hfail
      have hnot : ¬ DataRead driver io reg s :=
        fun h => absurd (h.2 hselects) (Int.not_le.mpr hret)
      refine Or.inl ⟨io.select.ret, Int.ne_of_lt hret, hnot, ?_,
        codecReadReg_of_selects hselects hret val⟩
      rintro other (⟨hno, -⟩ | ⟨-, -, hother⟩ | ⟨hdata, -⟩)
      · exact absurd hready hno
      · exact hother
      · exact absurd hdata hnot
    · refine Or.inr ⟨hready, fun hselects => ?_⟩
      exact Int.not_lt.mp fun hret => hfail ⟨hselects, hret⟩
  · refine Or.inl ⟨(pmDeviceRuntimeGet driver io.pm s).1, hready, fun h => hready h.1, ?_, _,
      codecReadReg_of_not_ready hready reg val⟩
    rintro other (⟨-, hother⟩ | ⟨hselects, -⟩ | ⟨hdata, -⟩)
    · exact hother
    · exact absurd hselects.1 hready
    · exact absurd hdata.1 hready

theorem readReported_iff (io : ReadIo) (reg : Reg) (val : UInt8) (s : State) :
    ReadReported driver io reg val s ↔ ReadSound driver io reg s := by
  rcases failed_or_dataRead driver io reg val s with
    ⟨failure, hne, hnot, hfailure, s', hread⟩ | hdata
  · rw [ReadReported, hread]
    constructor
    · intro _ hdata
      exact absurd hdata hnot
    · intro _
      exact ⟨fun other hother => (hfailure other hother).symm, fun hret => absurd hret hne⟩
  · obtain ⟨-, hpage⟩ := setPage_of_dataRead hdata
    rw [ReadReported, codecReadReg_of_dataRead hdata]
    constructor
    · rintro ⟨hfailures, hbyte⟩ _
      obtain ⟨-, hok, hdevice, -⟩ := hbyte rfl
      exact ⟨hok, hpage.mp hdevice⟩
    · intro hsound
      obtain ⟨hok, hdevice⟩ := hsound hdata
      constructor
      · rintro failure (⟨hready, -⟩ | ⟨hselects, hret, -⟩ | ⟨-, hret, -⟩)
        · exact absurd hdata.1 hready
        · exact absurd (hdata.2 hselects) (Int.not_le.mpr hret)
        · exact absurd hok (Int.not_le.mpr hret)
      · intro _
        refine ⟨hdata, hok, hpage.mpr hdevice, ?_⟩
        simp only [i2cRegReadByte, if_pos hok]

theorem Failed.ne_zero {failure : Int} (h : Failed driver io reg s failure) : failure ≠ 0 := by
  rcases h with ⟨hready, rfl⟩ | ⟨-, hret, rfl⟩ | ⟨-, hret, rfl⟩
  · exact hready
  · exact Int.ne_of_lt hret
  · exact Int.ne_of_lt hret

end

/-- The register that `codec_get_property` reads. -/
def propertyReg (property : Property) (channel : Nat) : Option Reg :=
  match property with
  | .analogGain => some (regOf (chCfg1Addr channel))
  | .impedance => some (regOf (chCfg0Addr channel))
  | _ => none

section

variable (driver : DriverConfig) (linearRange : LinearRangeStatus)

/-- The read reports its failures; a property whose read fails is an error and
leaves the value of the caller; one that is returned is the one of the device. -/
def GetReported (io : ReadIo) (stack : UInt8) (property : Property) (channel : AudioChannel)
    (val : PropertyValue) (s : State) : Prop :=
  ∀ index reg, codecChannelToIndex channel = .ok index → propertyReg property index = some reg →
    let (ret, val', s') := codecGetProperty driver linearRange io stack property channel val s
    ReadReported driver io reg stack s ∧
      (∀ failure, Failed driver io reg s failure → ret ≠ 0 ∧ val' = val) ∧
      (ret = 0 → InputCodec.codecGetProperty linearRange.toLinearRangeUtils property channel
        s'.codec = .ok val')

variable {driver linearRange}

theorem propertyReg_addr {property : Property} {index : Nat} (hindex : Analog index) {reg : Reg}
    (hreg : propertyReg property index = some reg) (s : Codec) :
    reg.regAddr ≠ pageCfgAddr ∧ stored property index s = s.regs reg.addr := by
  have hcases : index = 1 ∨ index = 2 := by
    obtain ⟨hlow, hhigh⟩ := hindex
    simp only [codecNumAnalogChannels] at hhigh
    omega
  cases property with
  | source | digitalGain | mute => cases hreg
  | analogGain | impedance =>
      obtain rfl := Option.some.inj hreg
      rcases hcases with rfl | rfl <;> exact ⟨by decide, rfl⟩

theorem assign_map {α β : Type} {f : α → β} {val : α} {val' : β} (hval : f val = val')
    (r : Except Int α) :
    assign (r.map f) val' = ((assign r val).1, f (assign r val).2) := by
  cases r with
  | error ret => exact Prod.ext rfl hval.symm
  | ok val => rfl

theorem assign_eq_zero {α : Type} {r : Except Int α} (hr : ∀ ret, r = .error ret → ret ≠ 0)
    {val : α} (h : (assign r val).1 = 0) : r = .ok (assign r val).2 := by
  cases r with
  | error ret => exact absurd h (hr ret rfl)
  | ok val => rfl

theorem eq_error_of_map {α β : Type} {f : α → β} {r : Except Int α} {ret : Int}
    (h : r.map f = .error ret) : r = .error ret := by
  cases r with
  | error failure => exact congrArg Except.error (Except.error.inj h)
  | ok val => cases h

theorem decode_error (property : Property) (byte : UInt8) (ret : Int)
    (h : decode linearRange.toLinearRangeUtils property byte = .error ret) : ret ≠ 0 := by
  cases property with
  | source =>
      obtain rfl := Except.error.inj h
      decide
  | mute => cases h
  | analogGain => exact linearRange.getValue_error _ _ _ (eq_error_of_map h)
  | digitalGain => exact linearRange.getValue_error _ _ _ (eq_error_of_map h)
  | impedance =>
      have himp := eq_error_of_map h
      simp only [impedanceAt] at himp
      split at himp
      · cases himp
      · cases himp
      · cases himp
      · obtain rfl := Except.error.inj himp
        decide

theorem codecGetProperty_of_reg {property : Property} {channel : AudioChannel} {index : Nat}
    {reg : Reg} (hindex : codecChannelToIndex channel = .ok index)
    (hreg : propertyReg property index = some reg) (io : ReadIo) (stack : UInt8)
    (val : PropertyValue) (s : State) :
    codecGetProperty driver linearRange io stack property channel val s =
      let (ret, byte, s') := codecReadReg driver io reg stack s
      if ret ≠ 0 then (ret, val, s')
      else
        let (ret, val') := assign (decode linearRange.toLinearRangeUtils property byte) val
        (ret, val', s') := by
  have hanalog := analog_of_codecChannelToIndex hindex
  simp only [codecGetProperty, hindex]
  cases property with
  | source | digitalGain | mute => cases hreg
  | analogGain =>
      obtain rfl := Option.some.inj hreg
      simp only [codecGetAnalogGain, if_neg hanalog.not_out, decode]
      split
      · rw [val.ofGain_gain]
      · rw [assign_map val.ofGain_gain]
  | impedance =>
      obtain rfl := Option.some.inj hreg
      simp only [codecGetImpedance, if_neg hanalog.not_out_of_all, if_neg hanalog.not_digital,
        decode]
      split
      · rfl
      · have hval : PropertyValue.mk val.impedance = val := rfl
        rw [assign_map hval]

theorem getReported_of_readSound {property : Property} {channel : AudioChannel} {index : Nat}
    {reg : Reg} (hindex : codecChannelToIndex channel = .ok index)
    (hreg : propertyReg property index = some reg) {io : ReadIo} {s : State}
    (hsound : ReadSound driver io reg s) (stack : UInt8) (val : PropertyValue) :
    let (ret, val', s') := codecGetProperty driver linearRange io stack property channel val s
    ReadReported driver io reg stack s ∧
      (∀ failure, Failed driver io reg s failure → ret ≠ 0 ∧ val' = val) ∧
      (ret = 0 → InputCodec.codecGetProperty linearRange.toLinearRangeUtils property channel
        s'.codec = .ok val') := by
  have hanalog := analog_of_codecChannelToIndex hindex
  have hread := (readReported_iff io reg stack s).mpr hsound
  rw [codecGetProperty_of_reg hindex hreg]
  have hresult := hread
  rw [ReadReported] at hresult
  generalize codecReadReg driver io reg stack s = r at hresult ⊢
  obtain ⟨ret, byte, s'⟩ := r
  obtain ⟨hfailures, hbyte⟩ := hresult
  simp only
  rcases eq_or_ne ret 0 with rfl | hret
  · obtain ⟨-, -, hpage, hval⟩ := hbyte rfl
    rw [if_neg (not_not.mpr rfl)]
    refine ⟨hread, fun failure hfailure => ?_, fun hret => ?_⟩
    · exact absurd (hfailures failure hfailure).symm hfailure.ne_zero
    · obtain ⟨haddr, hstored⟩ := propertyReg_addr hanalog hreg s'.codec
      rw [CodecProperties.codecGetProperty_eq _ hindex hanalog, hstored]
      rw [Device.byte, if_neg haddr, hpage] at hval
      change decode _ property (s'.device.regs reg.addr) = _
      rw [← assign_eq_zero (decode_error property byte) hret, hval]
  · rw [if_pos hret]
    exact ⟨hread, fun _ _ => ⟨hret, rfl⟩, fun h => absurd h hret⟩

end

inductive Call where
  | readReg (io : ReadIo) (reg : Reg) (val : UInt8)
  | getProperty (io : ReadIo) (stack : UInt8) (property : Property) (channel : AudioChannel)
      (val : PropertyValue)
  | writeReg (io : WriteRegIo) (reg : Reg) (val : UInt8)
  | softReset (io : WriteRegIo)
  | pmAction (io : WriteIo) (sleep : Bool)
  deriving DecidableEq, Repr

section

variable (driver : DriverConfig) (linearRange : LinearRangeStatus)

def step (s : State) : Call → State
  | .readReg io reg val => (codecReadReg driver io reg val s).2.2
  | .getProperty io stack property channel val =>
      (codecGetProperty driver linearRange io stack property channel val s).2.2
  | .writeReg io reg val => (codecWriteReg driver io reg val s).2
  | .softReset io => (codecSoftReset driver io s).2
  | .pmAction io sleep => (codecConfigurePower driver io sleep s).2

def Reported (s : State) : Call → Prop
  | .readReg io reg val => ReadReported driver io reg val s
  | .getProperty io stack property channel val =>
      GetReported driver linearRange io stack property channel val s
  | _ => True

/-- The register that a call reads, with its accesses. -/
def Call.reads : Call → Option (ReadIo × Reg)
  | .readReg io reg _ => some (io, reg)
  | .getProperty io _ property channel _ =>
      match codecChannelToIndex channel with
      | .error _ => none
      | .ok index => (propertyReg property index).map (io, ·)
  | _ => none

def Sound (s : State) (call : Call) : Prop :=
  ∀ io reg, call.reads = some (io, reg) → ReadSound driver io reg s

theorem reported_iff (s : State) (call : Call) :
    Reported driver linearRange s call ↔ Sound driver s call := by
  cases call with
  | writeReg | softReset | pmAction =>
      refine ⟨?_, fun _ => trivial⟩
      intro _ io reg hreads
      cases hreads
  | readReg io reg val =>
      constructor
      · intro h io' reg' hreads
        obtain ⟨rfl, rfl⟩ := Prod.mk.inj (Option.some.inj hreads)
        exact (readReported_iff io reg val s).mp h
      · intro h
        exact (readReported_iff io reg val s).mpr (h io reg rfl)
  | getProperty io stack property channel val =>
      have hreads : ∀ index reg, codecChannelToIndex channel = .ok index →
          propertyReg property index = some reg →
            (Call.getProperty io stack property channel val).reads = some (io, reg) := by
        intro index reg hindex hreg
        simp only [Call.reads, hindex, hreg]
        rfl
      constructor
      · intro h io' reg' hsome
        cases hindex : codecChannelToIndex channel with
        | error ret =>
            simp only [Call.reads, hindex] at hsome
            cases hsome
        | ok index =>
            cases hreg : propertyReg property index with
            | none =>
                simp only [Call.reads, hindex, hreg] at hsome
                cases hsome
            | some reg =>
                rw [hreads index reg hindex hreg] at hsome
                obtain ⟨rfl, rfl⟩ := Prod.mk.inj (Option.some.inj hsome)
                exact (readReported_iff io reg stack s).mp (h index reg hindex hreg).1
      · intro h index reg hindex hreg
        exact getReported_of_readSound hindex hreg (h io reg (hreads index reg hindex hreg)) stack
          val

/-- A run reports what it reads exactly when no byte is read with a failure or
from a page that the driver only believes to be selected. -/
theorem along_reported_iff (s : State) (calls : List Call) :
    Along (step driver linearRange) (Reported driver linearRange) s calls ↔
      Along (step driver linearRange) (Sound driver) s calls := by
  apply along_iff_of_forall
  intro s call
  exact reported_iff driver linearRange s call

end

/-! The page while transfers that fail do not reach the device. -/

/-- The page that is cached is the one that is selected. -/
def Coherent (s : State) : Prop :=
  s.device.page = s.regPageCache

def Transfer.Clean (io : Transfer) : Prop :=
  io.ret < 0 → io.done = false

def WriteIo.Clean (io : WriteIo) : Prop :=
  io.select.Clean ∧ io.data.Clean

def PmIo.Clean (io : PmIo) : Prop :=
  ∀ resume, io.resume = some resume → resume.Clean

/-- No write of the call is half done, and a register that is written on its own
neither selects a page nor resets the device. -/
def Call.Clean : Call → Prop
  | .readReg io _ _ => io.pm.Clean ∧ io.select.Clean
  | .getProperty io _ _ _ _ => io.pm.Clean ∧ io.select.Clean
  | .writeReg io reg _ =>
      io.pm.Clean ∧ io.toWriteIo.Clean ∧ reg.regAddr ≠ pageCfgAddr ∧ reg.addr ≠ swResetAddr
  | .softReset io => io.pm.Clean ∧ io.toWriteIo.Clean
  | .pmAction io _ => io.Clean

section

variable {driver : DriverConfig} {s : State}

variable (driver) in
theorem setPage_coherent (hs : Coherent s) {io : Transfer} (hio : io.Clean) (page : UInt8) :
    Coherent (setPage driver io page s).2 ∧
      (0 ≤ (setPage driver io page s).1 →
        (setPage driver io page s).2.device.page = page) := by
  rcases eq_or_ne s.regPageCache page with heq | hne
  · rw [setPage_of_eq heq]
    exact ⟨hs, fun _ => hs.trans heq⟩
  · obtain ⟨hfst, hsnd⟩ := setPage_of_ne driver io hne
    rw [hfst]
    rcases Int.lt_or_le io.ret 0 with hret | hret
    · have hfst : (i2cRegWriteByte driver io pageCfgAddr page s).1 < 0 := hret
      have hdone : ¬ (0 ≤ io.ret ∨ io.done = true) := by
        rw [hio hret]
        rintro (h | h)
        · exact absurd hret (Int.not_lt.mpr h)
        · cases h
      simp only [setPage, if_pos hne, if_pos hfst]
      rw [i2cRegWriteByte, if_neg hdone]
      exact ⟨hs, fun hok => absurd hret (Int.not_lt.mpr hok)⟩
    · rw [hsnd hret]
      exact ⟨rfl, fun _ => rfl⟩

theorem Device.write_page {d : Device} {regAddr : UInt8} (hpage : regAddr ≠ pageCfgAddr)
    (hreset : (Reg.mk d.page regAddr).addr ≠ swResetAddr) (val : UInt8) :
    (d.write driver regAddr val).page = d.page := by
  rw [Device.write, if_neg hpage, if_neg (fun h => hreset h.1)]

theorem codecWriteRegNoPm_coherent (hs : Coherent s) {io : WriteIo} (hio : io.Clean) {reg : Reg}
    (hpage : reg.regAddr ≠ pageCfgAddr) (hreset : reg.addr ≠ swResetAddr) (val : UInt8) :
    Coherent (codecWriteRegNoPm driver io reg val s).2 := by
  obtain ⟨hselected, hdevice⟩ := setPage_coherent driver hs hio.1 reg.page
  rw [codecWriteRegNoPm]
  generalize setPage driver io.select reg.page s = r at hselected hdevice
  obtain ⟨ret, s'⟩ := r
  simp only at hselected hdevice ⊢
  split
  · exact hselected
  · rename_i hret
    have hreg : (Reg.mk s'.device.page reg.regAddr).addr ≠ swResetAddr := by
      rw [hdevice (Int.not_lt.mp hret)]
      exact hreset
    have hwritten : Coherent (i2cRegWriteByte driver io.data reg.regAddr val s').2 := by
      simp only [i2cRegWriteByte]
      split
      · exact (Device.write_page hpage hreg val).trans hselected
      · exact hselected
    split <;> exact hwritten

variable (driver) in
theorem codecConfigurePower_coherent (hs : Coherent s) {io : WriteIo} (hio : io.Clean)
    (sleep : Bool) : Coherent (codecConfigurePower driver io sleep s).2 := by
  have hpage : (regOf sleepCfgAddr).regAddr ≠ pageCfgAddr := by decide
  have hreset : (regOf sleepCfgAddr).addr ≠ swResetAddr := by decide
  exact codecWriteRegNoPm_coherent hs hio hpage hreset _

variable (driver) in
theorem pmDeviceRuntimeGet_coherent (hs : Coherent s) {io : PmIo} (hio : io.Clean) :
    Coherent (pmDeviceRuntimeGet driver io s).2 := by
  rw [pmDeviceRuntimeGet]
  split
  · exact hs
  · rename_i resume hresume
    have hpower := codecConfigurePower_coherent driver hs (hio resume hresume) false
    simp only
    split <;> exact hpower

variable (driver) in
theorem codecReadReg_coherent (hs : Coherent s) {io : ReadIo} (hpm : io.pm.Clean)
    (hselect : io.select.Clean) (reg : Reg) (val : UInt8) :
    Coherent (codecReadReg driver io reg val s).2.2 := by
  have hready := pmDeviceRuntimeGet_coherent driver hs hpm
  obtain ⟨hselected, -⟩ := setPage_coherent driver hready hselect reg.page
  rw [codecReadReg]
  simp only
  split
  · exact hready
  · split <;> exact hselected

theorem codecWriteReg_coherent (hs : Coherent s) {io : WriteRegIo} (hpm : io.pm.Clean)
    (hio : io.toWriteIo.Clean) {reg : Reg} (hpage : reg.regAddr ≠ pageCfgAddr)
    (hreset : reg.addr ≠ swResetAddr) (val : UInt8) :
    Coherent (codecWriteReg driver io reg val s).2 := by
  have hready := pmDeviceRuntimeGet_coherent driver hs hpm
  rw [codecWriteReg]
  simp only
  split
  · exact hready
  · exact codecWriteRegNoPm_coherent hready hio hpage hreset val

variable (driver) in
theorem codecWriteRegNoPm_reset (hs : Coherent s) {io : WriteIo} (hio : io.Clean) :
    let r := codecWriteRegNoPm driver io (regOf swResetAddr) swResetAssert s
    (r.1 = 0 → r.2.device.page = 0) ∧ (r.1 ≠ 0 → Coherent r.2) := by
  obtain ⟨hselected, hdevice⟩ :=
    setPage_coherent driver hs hio.1 (regOf swResetAddr).page
  simp only [codecWriteRegNoPm]
  generalize setPage driver io.select (regOf swResetAddr).page s = r at hselected hdevice
  obtain ⟨ret, s'⟩ := r
  simp only at hselected hdevice ⊢
  split
  · rename_i hret
    exact ⟨fun h => absurd h (Int.ne_of_lt hret), fun _ => hselected⟩
  · rename_i hret
    have hpage := hdevice (Int.not_lt.mp hret)
    rcases Int.lt_or_le io.data.ret 0 with hdata | hdata
    · have hdone : ¬ (0 ≤ io.data.ret ∨ io.data.done = true) := by
        rw [hio.2 hdata]
        rintro (h | h)
        · exact absurd hdata (Int.not_lt.mpr h)
        · cases h
      simp only [i2cRegWriteByte, if_neg hdone]
      split
      · exact ⟨fun h => absurd h (Int.ne_of_lt hdata), fun _ => hselected⟩
      · exact ⟨fun _ => hpage, fun _ => hselected⟩
    · have hreset :
          (s'.device.write driver (regOf swResetAddr).regAddr swResetAssert).page = 0 := by
        have haddr : (regOf swResetAddr).regAddr ≠ pageCfgAddr := by decide
        have hreg : (Reg.mk s'.device.page (regOf swResetAddr).regAddr).addr = swResetAddr ∧
            swResetAssert &&& swResetAssert ≠ 0 := by
          rw [hpage]
          decide
        rw [Device.write, if_neg haddr, if_pos hreg]
      simp only [i2cRegWriteByte, if_pos (Or.inl hdata)]
      split
      · rename_i hneg
        exact absurd hdata (Int.not_le.mpr hneg)
      · exact ⟨fun _ => hreset, fun h => absurd rfl h⟩

theorem codecSoftReset_coherent (hs : Coherent s) {io : WriteRegIo} (hpm : io.pm.Clean)
    (hio : io.toWriteIo.Clean) : Coherent (codecSoftReset driver io s).2 := by
  have hready := pmDeviceRuntimeGet_coherent driver hs hpm
  obtain ⟨hdone, hfailed⟩ := codecWriteRegNoPm_reset driver hready hio
  simp only [codecSoftReset, codecWriteReg]
  split
  · exact hready
  · split
    · rename_i hret
      exact hfailed hret
    · rename_i hret
      exact hdone (not_not.mp hret)

variable (linearRange : LinearRangeStatus)

theorem step_coherent (hs : Coherent s) {call : Call} (hcall : call.Clean) :
    Coherent (step driver linearRange s call) := by
  cases call with
  | readReg io reg val => exact codecReadReg_coherent driver hs hcall.1 hcall.2 reg val
  | writeReg io reg val =>
      obtain ⟨hpm, hio, hpage, hreset⟩ := hcall
      exact codecWriteReg_coherent hs hpm hio hpage hreset val
  | softReset io => exact codecSoftReset_coherent hs hcall.1 hcall.2
  | pmAction io sleep => exact codecConfigurePower_coherent driver hs hcall sleep
  | getProperty io stack property channel val =>
      simp only [step]
      cases hindex : codecChannelToIndex channel with
      | error ret =>
          simp only [codecGetProperty, hindex]
          exact hs
      | ok index =>
          cases hreg : propertyReg property index with
          | none =>
              simp only [codecGetProperty, hindex]
              cases property with
              | analogGain | impedance => cases hreg
              | source | digitalGain => exact hs
              | mute =>
                  simp only
                  split <;> exact hs
          | some reg =>
              have hread := codecReadReg_coherent driver hs hcall.1 hcall.2 reg stack
              rw [codecGetProperty_of_reg hindex hreg]
              simp only
              split <;> exact hread

theorem Call.Clean.pm {call : Call} (hcall : call.Clean) {io : ReadIo} {reg : Reg}
    (hreads : call.reads = some (io, reg)) : io.pm.Clean := by
  cases call with
  | writeReg | softReset | pmAction => cases hreads
  | readReg io' reg' val =>
      obtain ⟨rfl, rfl⟩ := Prod.mk.inj (Option.some.inj hreads)
      exact hcall.1
  | getProperty io' stack property channel val =>
      simp only [Call.reads] at hreads
      split at hreads
      · cases hreads
      · obtain ⟨reg', -, heq⟩ := Option.map_eq_some_iff.mp hreads
        obtain ⟨rfl, rfl⟩ := Prod.mk.inj heq
        exact hcall.1

/-- The read of a call does not fail. -/
def Readable (driver : DriverConfig) (s : State) (call : Call) : Prop :=
  ∀ io reg, call.reads = some (io, reg) → DataRead driver io reg s → 0 ≤ io.data

theorem sound_iff_readable (hs : Coherent s) {call : Call} (hcall : call.Clean) :
    Sound driver s call ↔ Readable driver s call := by
  constructor
  · intro h io reg hreads hdata
    exact (h io reg hreads hdata).1
  · intro h io reg hreads hdata
    have hready := pmDeviceRuntimeGet_coherent driver hs (hcall.pm hreads)
    exact ⟨h io reg hreads hdata, fun hpage => hready.trans hpage⟩

theorem along_reported_iff_of_clean (hs : Coherent s) {calls : List Call}
    (hcalls : ∀ call ∈ calls, call.Clean) :
    Along (step driver linearRange) (Reported driver linearRange) s calls ↔
      Along (step driver linearRange) (Readable driver) s calls := by
  induction calls generalizing s with
  | nil => exact Iff.rfl
  | cons call calls ih =>
      have hcall := hcalls call List.mem_cons_self
      rw [along_cons, along_cons, reported_iff, sound_iff_readable hs hcall]
      apply and_congr_right
      intro _
      exact ih (step_coherent linearRange hs hcall)
        (fun other hother => hcalls other (List.mem_cons_of_mem call hother))

end

def linearRangeStatus : LinearRangeStatus where
  toLinearRangeUtils := linearRangeUtils
  getValue_error := by
    intro r idx ret h
    simp only [linearRangeUtils] at h
    split at h
    · cases h
    · obtain rfl := Except.error.inj h
      decide

/-- The read of the gain fails, and 10 is returned for a gain of 0. -/
theorem read_failure_lost :
    let s : State := ⟨⟨fun _ => 0, 0⟩, 0, fun _ => ⟨false, codecDefaultDvol⟩⟩
    let io : ReadIo := ⟨⟨0, none⟩, ⟨0, true⟩, -5⟩
    (codecGetProperty stereoDriver linearRangeStatus io 20 .analogGain .frontLeft ⟨7⟩ s).1 = 0 ∧
      (codecGetProperty stereoDriver linearRangeStatus io 20 .analogGain .frontLeft ⟨7⟩ s).2.1 =
        .ofGain 10 ∧
      ¬ Along (step stereoDriver linearRangeStatus) (Reported stereoDriver linearRangeStatus) s
        [.getProperty io 20 .analogGain .frontLeft ⟨7⟩] := by
  refine ⟨by decide +kernel, by decide +kernel, ?_⟩
  rintro ⟨h, -⟩
  obtain ⟨-, hfailure, -⟩ := h 1 _ rfl rfl
  refine (hfailure (-5) (Or.inr (Or.inr ⟨⟨rfl, fun h => absurd rfl h.2⟩, by decide, rfl⟩))).1 ?_
  decide +kernel

end ZeusLe.CodecRegisters
