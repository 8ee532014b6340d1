import Mathlib.Algebra.Order.Group.Nat
import Mathlib.Logic.Function.Basic
import ZeusLe.Errno

/-!
The properties of the audio codec, `tlv320adcx120.c`: analog gain, digital gain,
mute and impedance of its channels.
-/

namespace ZeusLe.InputCodec

/-- `audio_channel_t`; only the first two channels are used. -/
inductive AudioChannel where
  | frontLeft
  | frontRight
  | other (channel : Nat)
  deriving DecidableEq, Repr

inductive Property where
  | source
  | analogGain
  | digitalGain
  | mute
  | impedance
  deriving DecidableEq, Repr

/-- `union input_codec_property_value`. -/
structure PropertyValue where
  bits : UInt32
  deriving DecidableEq, Repr

def PropertyValue.gain (val : PropertyValue) : Int :=
  val.bits.toInt32.toInt

def PropertyValue.mute (val : PropertyValue) : Bool :=
  val.bits.toUInt8 != 0

def PropertyValue.impedance (val : PropertyValue) : UInt32 :=
  val.bits

def PropertyValue.ofGain (gain : Int) : PropertyValue :=
  ⟨(Int32.ofInt gain).toUInt32⟩

theorem PropertyValue.ofGain_gain (val : PropertyValue) : ofGain val.gain = val := by
  simp [ofGain, gain]

structure LinearRange where
  min : Int
  step : Nat
  minIdx : Nat
  maxIdx : Nat
  deriving DecidableEq, Repr

/-- `linear_range.h`. In a range of step 1 an index stands for the one value it
was found for. -/
structure LinearRangeUtils where
  getValue : LinearRange → Nat → Except Int Int
  getIndex : LinearRange → Int → Except Int Nat
  getIndex_error : ∀ r val ret, getIndex r val = .error ret → ret ≠ 0
  getIndex_le : ∀ r val idx, r.step = 1 → r.minIdx ≤ r.maxIdx → getIndex r val = .ok idx →
    idx ≤ r.maxIdx
  getValue_getIndex : ∀ r val idx, r.step = 1 → r.minIdx ≤ r.maxIdx →
    getIndex r val = .ok idx → getValue r idx = .ok val

/-- The functions of a range that is not empty. -/
def linearRangeUtils : LinearRangeUtils where
  getValue r idx :=
    if r.minIdx ≤ idx ∧ idx ≤ r.maxIdx then .ok (r.min + r.step * (idx - r.minIdx : Nat))
    else .error (-einval)
  getIndex r val :=
    if r.min ≤ val ∧ val ≤ r.min + r.step * (r.maxIdx - r.minIdx : Nat) then
      .ok (r.minIdx + ((val - r.min).toNat + r.step - 1) / r.step)
    else .error (-34)
  getIndex_error := by
    intro r val ret h
    split at h
    · cases h
    · obtain rfl := Except.error.inj h
      decide
  getIndex_le := by
    intro r val idx hstep hle h
    split at h
    · rename_i hrange
      obtain rfl := Except.ok.inj h
      simp only [hstep, Nat.add_sub_cancel, Nat.div_one] at hrange ⊢
      omega
    · cases h
  getValue_getIndex := by
    intro r val idx hstep hle h
    split at h
    · rename_i hrange
      obtain rfl := Except.ok.inj h
      simp only [hstep, Nat.add_sub_cancel, Nat.div_one] at hrange ⊢
      rw [if_pos (by omega)]
      congr 1
      omega
    · cases h

def analogGainRange : LinearRange := ⟨0, 1, 0, 84⟩

def digitalGainRange : LinearRange := ⟨-200, 1, 1, 255⟩

structure RegAddr where
  page : Nat
  regAddr : Nat
  deriving DecidableEq, Repr

def chCfg0Addr (ch : Nat) : RegAddr := ⟨0, 0x3c + (ch - 1) * 5⟩

def chCfg1Addr (ch : Nat) : RegAddr := ⟨0, 0x3d + (ch - 1) * 5⟩

def chCfg2Addr (ch : Nat) : RegAddr := ⟨0, 0x3e + (ch - 1) * 5⟩

/-- The bits `GENMASK(high, low)` of a register. -/
structure Field where
  high : Nat
  low : Nat

def Field.prep (field : Field) (val : Nat) : UInt8 :=
  UInt8.ofNat (val % 2 ^ (field.high - field.low + 1) * 2 ^ field.low)

def Field.get (field : Field) (reg : UInt8) : Nat :=
  reg.toNat / 2 ^ field.low % 2 ^ (field.high - field.low + 1)

def chCfg0Intyp : UInt8 := 0x80

def chCfg0Dc : UInt8 := 0x10

def chCfg0Imp : Field := ⟨3, 2⟩

def chCfg0Dreen : UInt8 := 0x01

def chCfg1Gain : Field := ⟨7, 1⟩

def chCfg2Dvol : Field := ⟨7, 0⟩

structure ChannelConfig where
  channel : Nat
  lineIn : Bool
  dcCoupled : Bool
  deriving DecidableEq, Repr

structure ChannelData where
  mute : Bool
  dvol : UInt8
  deriving DecidableEq, Repr

/-- The registers, and the data of channel 1 and those after it. -/
structure Codec where
  regs : RegAddr → UInt8
  channels : Nat → ChannelData

def codecNumChannels : Nat := 4

def codecNumAnalogChannels : Nat := 2

def codecDefaultDvol : UInt8 := 201

/-- After `codec_initialize`, which leaves `regs`. -/
def codecInitial (regs : RegAddr → UInt8) : Codec where
  regs := regs
  channels := fun _ => ⟨false, codecDefaultDvol⟩

def codecChannelToIndex : AudioChannel → Except Int Nat
  | .frontLeft => .ok 1
  | .frontRight => .ok 2
  | .other _ => .error (-enotsup)

def codecGetChannelConfig (config : List ChannelConfig) (channel : Nat) : Option ChannelConfig :=
  if channel < 1 ∨ channel > codecNumChannels then none
  else config.find? fun c => c.channel == channel

/-- An access that fails changes nothing. -/
def codecWriteReg (io : Int) (reg : RegAddr) (val : UInt8) (s : Codec) : Int × Codec :=
  if io ≠ 0 then (io, s) else (0, { s with regs := Function.update s.regs reg val })

/-- The `channel_data` of a channel in range. -/
def setChannelData (channel : Nat) (data : ChannelData) (s : Codec) : Codec :=
  { s with channels := Function.update s.channels (channel - 1) data }

section

variable (linearRange : LinearRangeUtils)

def codecGetAnalogGain (channel : Nat) (s : Codec) : Except Int Int :=
  if channel < 1 ∨ channel > codecNumAnalogChannels then .error (-enotsup)
  else linearRange.getValue analogGainRange (chCfg1Gain.get (s.regs (chCfg1Addr channel)))

def codecSetAnalogGain (io : Int) (channel : Nat) (gain : Int) (s : Codec) : Int × Codec :=
  if channel < 1 ∨ channel > codecNumAnalogChannels then (-enotsup, s)
  else match linearRange.getIndex analogGainRange gain with
    | .error ret => (ret, s)
    | .ok idx => codecWriteReg io (chCfg1Addr channel) (chCfg1Gain.prep idx) s

def codecGetDigitalGain (channel : Nat) (s : Codec) : Except Int Int :=
  if channel < 1 ∨ channel > codecNumChannels then .error (-einval)
  else linearRange.getValue digitalGainRange (s.channels (channel - 1)).dvol.toNat

def codecSetDigitalGain (io : Int) (channel : Nat) (gain : Int) (s : Codec) : Int × Codec :=
  if channel < 1 ∨ channel > codecNumChannels then (-einval, s)
  else match linearRange.getIndex digitalGainRange gain with
    | .error ret => (ret, s)
    | .ok dvol =>
        let data := s.channels (channel - 1)
        if dvol = data.dvol.toNat then (0, s)
        else if data.mute then (0, setChannelData channel { data with dvol := UInt8.ofNat dvol } s)
        else
          let (ret, s) := codecWriteReg io (chCfg2Addr channel) (chCfg2Dvol.prep dvol) s
          if ret ≠ 0 then (ret, s) else (0, setChannelData channel { data with dvol := UInt8.ofNat dvol } s)

def codecGetMute (channel : Nat) (s : Codec) : Except Int Bool :=
  if channel < 1 ∨ channel > codecNumChannels then .error (-einval)
  else .ok (s.channels (channel - 1)).mute

def codecSetMute (io : Int) (channel : Nat) (mute : Bool) (s : Codec) : Int × Codec :=
  if channel < 1 ∨ channel > codecNumChannels then (-einval, s)
  else
    let data := s.channels (channel - 1)
    if mute = data.mute then (0, s)
    else
      let dvol := if mute then 0 else data.dvol.toNat
      let (ret, s) := codecWriteReg io (chCfg2Addr channel) (chCfg2Dvol.prep dvol) s
      if ret ≠ 0 then (ret, s) else (0, setChannelData channel { data with mute := mute } s)

/-- The impedances and their values of `CH_CFG0_IMP`, in both directions. -/
def impedanceIndex (impedance : UInt32) : Option Nat :=
  if impedance = 2500 then some 0
  else if impedance = 10000 then some 1
  else if impedance = 20000 then some 2
  else none

def impedanceAt (imp : Nat) : Except Int UInt32 :=
  match imp with
  | 0 => .ok 2500
  | 1 => .ok 10000
  | 2 => .ok 20000
  | _ => .error (-einval)

def codecSetCfg0Analog (io : Int) (channel : Nat) (lineIn dcCoupled : Bool) (impedance : UInt32)
    (dre : Bool) (s : Codec) : Int × Codec :=
  if channel < 1 ∨ channel > codecNumAnalogChannels then (-enotsup, s)
  else match impedanceIndex impedance with
    | none => (-einval, s)
    | some imp =>
        codecWriteReg io (chCfg0Addr channel)
          ((if lineIn then chCfg0Intyp else 0) ||| (if dcCoupled then chCfg0Dc else 0) |||
            chCfg0Imp.prep imp ||| (if dre then chCfg0Dreen else 0)) s

def codecGetImpedance (channel : Nat) (s : Codec) : Except Int UInt32 :=
  if channel < 1 ∨ channel > codecNumChannels then .error (-einval)
  else if channel > codecNumAnalogChannels then .error (-enotsup)
  else impedanceAt (chCfg0Imp.get (s.regs (chCfg0Addr channel)))

variable (config : List ChannelConfig)

def codecSetImpedance (io : Int) (channel : Nat) (impedance : UInt32) (s : Codec) : Int × Codec :=
  let channelConfig := codecGetChannelConfig config channel
  if channel < 1 ∨ channel > codecNumChannels then (-einval, s)
  else if channel > codecNumAnalogChannels then (-enotsup, s)
  else
    codecSetCfg0Analog io channel ((channelConfig.map ChannelConfig.lineIn).getD false)
      ((channelConfig.map ChannelConfig.dcCoupled).getD false) impedance false s

/-- Reading the registers succeeds. -/
def codecGetProperty (property : Property) (channel : AudioChannel) (s : Codec) :
    Except Int PropertyValue :=
  match codecChannelToIndex channel with
  | .error ret => .error ret
  | .ok channel =>
      match property with
      | .analogGain => (codecGetAnalogGain linearRange channel s).map .ofGain
      | .digitalGain => (codecGetDigitalGain linearRange channel s).map .ofGain
      | .mute => (codecGetMute channel s).map fun mute => ⟨if mute then 1 else 0⟩
      | .impedance => (codecGetImpedance channel s).map .mk
      | .source => .error (-enotsup)

/-- `io` is the result of the access to a register. -/
def codecSetProperty (io : Int) (property : Property) (channel : AudioChannel)
    (val : PropertyValue) (s : Codec) : Int × Codec :=
  match codecChannelToIndex channel with
  | .error ret => (ret, s)
  | .ok channel =>
      match property with
      | .analogGain => codecSetAnalogGain linearRange io channel val.gain s
      | .digitalGain => codecSetDigitalGain linearRange io channel val.gain s
      | .mute => codecSetMute io channel val.mute s
      | .impedance => codecSetImpedance config io channel val.impedance s
      | .source => (-enotsup, s)

end

/-- Nothing is cached. -/
def codecApplyProperties : Int := 0

theorem codecWriteReg_spec (io : Int) (reg : RegAddr) (val : UInt8) (s : Codec) :
    (codecWriteReg io reg val s).2.channels = s.channels ∧
      ∀ other, other ≠ reg → (codecWriteReg io reg val s).2.regs other = s.regs other := by
  simp only [codecWriteReg]
  split
  · exact ⟨rfl, fun _ _ => rfl⟩
  · exact ⟨rfl, fun other hne => Function.update_of_ne hne val s.regs⟩

theorem codecWriteReg_zero (reg : RegAddr) (val : UInt8) (s : Codec) :
    codecWriteReg 0 reg val s = (0, { s with regs := Function.update s.regs reg val }) :=
  rfl

def Analog (channel : Nat) : Prop :=
  1 ≤ channel ∧ channel ≤ codecNumAnalogChannels

theorem Analog.not_out {channel : Nat} (h : Analog channel) :
    ¬ (channel < 1 ∨ channel > codecNumAnalogChannels) := by
  obtain ⟨hlow, hhigh⟩ := h
  omega

theorem Analog.not_digital {channel : Nat} (h : Analog channel) :
    ¬ channel > codecNumAnalogChannels :=
  Nat.not_lt.mpr h.2

theorem Analog.not_out_of_all {channel : Nat} (h : Analog channel) :
    ¬ (channel < 1 ∨ channel > codecNumChannels) := by
  obtain ⟨hlow, hhigh⟩ := h
  simp only [codecNumAnalogChannels] at hhigh
  simp only [codecNumChannels]
  omega

theorem analog_of_codecChannelToIndex {channel : AudioChannel} {index : Nat}
    (h : codecChannelToIndex channel = .ok index) : Analog index := by
  cases channel with
  | frontLeft =>
      obtain rfl : 1 = index := Except.ok.inj h
      exact ⟨by decide, by decide⟩
  | frontRight =>
      obtain rfl : 2 = index := Except.ok.inj h
      exact ⟨by decide, by decide⟩
  | other channel => cases h

theorem codecChannelToIndex_injective {first second : AudioChannel} {index : Nat}
    (hfirst : codecChannelToIndex first = .ok index)
    (hsecond : codecChannelToIndex second = .ok index) : first = second := by
  cases first <;> cases second <;>
    simp only [codecChannelToIndex, Except.ok.injEq, reduceCtorEq] at hfirst hsecond ⊢ <;> omega

theorem chCfg1Gain_get_prep {idx : Nat} (hidx : idx ≤ 84) :
    chCfg1Gain.get (chCfg1Gain.prep idx) = idx := by
  simp only [chCfg1Gain, Field.get, Field.prep, UInt8.toNat_ofNat']
  omega

theorem impedanceIndex_cases {impedance : UInt32} {imp : Nat}
    (himp : impedanceIndex impedance = some imp) :
    (impedance = 2500 ∧ imp = 0) ∨ (impedance = 10000 ∧ imp = 1) ∨
      (impedance = 20000 ∧ imp = 2) := by
  simp only [impedanceIndex] at himp
  split at himp
  · exact Or.inl ⟨‹_›, (Option.some.inj himp).symm⟩
  · split at himp
    · exact Or.inr (Or.inl ⟨‹_›, (Option.some.inj himp).symm⟩)
    · split at himp
      · exact Or.inr (Or.inr ⟨‹_›, (Option.some.inj himp).symm⟩)
      · cases himp

theorem impedanceAt_impedanceIndex {impedance : UInt32} {imp : Nat}
    (himp : impedanceIndex impedance = some imp) : impedanceAt imp = .ok impedance := by
  rcases impedanceIndex_cases himp with ⟨rfl, rfl⟩ | ⟨rfl, rfl⟩ | ⟨rfl, rfl⟩ <;> rfl

theorem chCfg0Imp_get_prep {impedance : UInt32} {imp : Nat}
    (himp : impedanceIndex impedance = some imp) (lineIn dcCoupled dre : Bool) :
    chCfg0Imp.get ((if lineIn then chCfg0Intyp else 0) ||| (if dcCoupled then chCfg0Dc else 0) |||
      chCfg0Imp.prep imp ||| (if dre then chCfg0Dreen else 0)) = imp := by
  rcases impedanceIndex_cases himp with ⟨-, rfl⟩ | ⟨-, rfl⟩ | ⟨-, rfl⟩ <;>
    cases lineIn <;> cases dcCoupled <;> cases dre <;> decide

section

variable (linearRange : LinearRangeUtils)

theorem codecSetAnalogGain_eq {channel : Nat} (hchannel : Analog channel) {gain : Int} {idx : Nat}
    (hidx : linearRange.getIndex analogGainRange gain = .ok idx) (io : Int) (s : Codec) :
    codecSetAnalogGain linearRange io channel gain s =
      codecWriteReg io (chCfg1Addr channel) (chCfg1Gain.prep idx) s := by
  rw [codecSetAnalogGain, if_neg hchannel.not_out]
  simp only [hidx]

theorem codecSetAnalogGain_error {channel : Nat} (hchannel : Analog channel) {gain ret : Int}
    (hret : linearRange.getIndex analogGainRange gain = .error ret) (io : Int) (s : Codec) :
    codecSetAnalogGain linearRange io channel gain s = (ret, s) := by
  rw [codecSetAnalogGain, if_neg hchannel.not_out]
  simp only [hret]

theorem codecGetAnalogGain_set {channel : Nat} (hchannel : Analog channel) {gain : Int} {idx : Nat}
    (hidx : linearRange.getIndex analogGainRange gain = .ok idx) (s : Codec) :
    codecGetAnalogGain linearRange channel (codecSetAnalogGain linearRange 0 channel gain s).2 =
      .ok gain := by
  have hle : idx ≤ 84 := linearRange.getIndex_le _ _ _ rfl (by decide) hidx
  rw [codecSetAnalogGain_eq linearRange hchannel hidx, codecWriteReg_zero, codecGetAnalogGain,
    if_neg hchannel.not_out]
  simp only [Function.update_self, chCfg1Gain_get_prep hle]
  exact linearRange.getValue_getIndex _ _ _ rfl (by decide) hidx

theorem codecSetDigitalGain_spec {channel : Nat} (hchannel : Analog channel) {gain : Int}
    {dvol : Nat} (hdvol : linearRange.getIndex digitalGainRange gain = .ok dvol) (io : Int)
    (s : Codec) :
    ((codecSetDigitalGain linearRange io channel gain s).1 = 0 →
        ((codecSetDigitalGain linearRange io channel gain s).2.channels (channel - 1)).dvol.toNat =
          dvol) ∧
      (∀ other, other ≠ channel - 1 →
        (codecSetDigitalGain linearRange io channel gain s).2.channels other = s.channels other) ∧
      ∀ reg, reg ≠ chCfg2Addr channel →
        (codecSetDigitalGain linearRange io channel gain s).2.regs reg = s.regs reg := by
  have hle : dvol ≤ 255 := linearRange.getIndex_le _ _ _ rfl (by decide) hdvol
  have hset : (UInt8.ofNat dvol).toNat = dvol := by
    rw [UInt8.toNat_ofNat']
    omega
  rw [codecSetDigitalGain, if_neg hchannel.not_out_of_all]
  simp only [hdvol]
  split
  · rename_i hsame
    exact ⟨fun _ => hsame.symm, fun _ _ => rfl, fun _ _ => rfl⟩
  · split
    · simp only [setChannelData, Function.update_self]
      refine ⟨fun _ => hset, ?_, fun _ _ => trivial⟩
      intro other hne
      exact Function.update_of_ne hne _ _
    · obtain ⟨hchannels, hregs⟩ :=
        codecWriteReg_spec io (chCfg2Addr channel) (chCfg2Dvol.prep dvol) s
      split
      · rename_i hret
        exact ⟨fun h => absurd h hret, fun _ _ => by rw [hchannels], hregs⟩
      · simp only [setChannelData, Function.update_self]
        refine ⟨fun _ => hset, ?_, hregs⟩
        intro other hne
        rw [Function.update_of_ne hne, hchannels]

theorem codecSetDigitalGain_zero {channel : Nat} (hchannel : Analog channel) {gain : Int}
    {dvol : Nat} (hdvol : linearRange.getIndex digitalGainRange gain = .ok dvol) (s : Codec) :
    (codecSetDigitalGain linearRange 0 channel gain s).1 = 0 := by
  rw [codecSetDigitalGain, if_neg hchannel.not_out_of_all]
  simp only [hdvol]
  split
  · rfl
  · split
    · rfl
    · simp only [codecWriteReg_zero, ne_eq, not_true_eq_false, if_false]

theorem codecSetDigitalGain_error {channel : Nat} (hchannel : Analog channel) {gain ret : Int}
    (hret : linearRange.getIndex digitalGainRange gain = .error ret) (io : Int) (s : Codec) :
    codecSetDigitalGain linearRange io channel gain s = (ret, s) := by
  rw [codecSetDigitalGain, if_neg hchannel.not_out_of_all]
  simp only [hret]

theorem codecGetDigitalGain_set {channel : Nat} (hchannel : Analog channel) {gain : Int}
    {dvol : Nat} (hdvol : linearRange.getIndex digitalGainRange gain = .ok dvol) (s : Codec) :
    codecGetDigitalGain linearRange channel (codecSetDigitalGain linearRange 0 channel gain s).2 =
      .ok gain := by
  have hset := (codecSetDigitalGain_spec linearRange hchannel hdvol 0 s).1
    (codecSetDigitalGain_zero linearRange hchannel hdvol s)
  rw [codecGetDigitalGain, if_neg hchannel.not_out_of_all, hset]
  exact linearRange.getValue_getIndex _ _ _ rfl (by decide) hdvol

variable (config : List ChannelConfig)

theorem codecSetImpedance_eq {channel : Nat} (hchannel : Analog channel) {impedance : UInt32}
    {imp : Nat} (himp : impedanceIndex impedance = some imp) (io : Int) (s : Codec) :
    ∃ lineIn dcCoupled : Bool, codecSetImpedance config io channel impedance s =
      codecWriteReg io (chCfg0Addr channel)
        ((if lineIn then chCfg0Intyp else 0) ||| (if dcCoupled then chCfg0Dc else 0) |||
          chCfg0Imp.prep imp ||| (if false then chCfg0Dreen else 0)) s := by
  refine ⟨((codecGetChannelConfig config channel).map ChannelConfig.lineIn).getD false,
    ((codecGetChannelConfig config channel).map ChannelConfig.dcCoupled).getD false, ?_⟩
  simp only [codecSetImpedance, if_neg hchannel.not_out_of_all, if_neg hchannel.not_digital,
    codecSetCfg0Analog, if_neg hchannel.not_out, himp]

theorem codecSetImpedance_error {channel : Nat} (hchannel : Analog channel) {impedance : UInt32}
    (himp : impedanceIndex impedance = none) (io : Int) (s : Codec) :
    codecSetImpedance config io channel impedance s = (-einval, s) := by
  simp only [codecSetImpedance, if_neg hchannel.not_out_of_all, if_neg hchannel.not_digital,
    codecSetCfg0Analog, if_neg hchannel.not_out, himp]

theorem codecGetImpedance_set {channel : Nat} (hchannel : Analog channel) {impedance : UInt32}
    {imp : Nat} (himp : impedanceIndex impedance = some imp) (s : Codec) :
    codecGetImpedance channel (codecSetImpedance config 0 channel impedance s).2 =
      .ok impedance := by
  obtain ⟨lineIn, dcCoupled, hset⟩ := codecSetImpedance_eq config hchannel himp 0 s
  rw [hset, codecWriteReg_zero, codecGetImpedance, if_neg hchannel.not_out_of_all,
    if_neg hchannel.not_digital]
  simp only [Function.update_self]
  rw [chCfg0Imp_get_prep himp]
  exact impedanceAt_impedanceIndex himp

end

end ZeusLe.InputCodec
