import ZeusLe.Library.Run
import ZeusLe.InputCodec

/-!
The property store of the audio codec, `tlv320adcx120.c`: its start, and what the
properties are after any calls of `codec_set_property`.
-/

namespace ZeusLe.CodecProperties

open ZeusLe.InputCodec
open ZeusLe.Library.Run

def swResetAddr : RegAddr := ⟨0, 0x01⟩

def swResetAssert : UInt8 := 0x02

def sleepCfgAddr : RegAddr := ⟨0, 0x02⟩

def sleepCfgAregSelect : UInt8 := 0x80

def sleepCfgSleepEnz : UInt8 := 0x01

def asiChAddr (ch : Nat) : RegAddr := ⟨0, 0x0b + ch - 1⟩

def asiChSlot : Field := ⟨5, 0⟩

def inChEnAddr : RegAddr := ⟨0, 0x73⟩

def asiOutChEnAddr : RegAddr := ⟨0, 0x74⟩

/-- `IN_CH_EN` and `ASI_OUT_CH_EN`. -/
def chEn (ch : Nat) : UInt8 :=
  UInt8.ofNat (2 ^ (7 - (ch - 1)))

/-- The registers after a reset. The volume of every channel is at its default. -/
def ResetRegs :=
  { regs : RegAddr → UInt8 //
    ∀ ch, 1 ≤ ch → ch ≤ codecNumChannels → regs (chCfg2Addr ch) = codecDefaultDvol }

structure ChannelInput extends ChannelConfig where
  impedanceOhms : UInt16
  slot : UInt8
  deriving DecidableEq, Repr

structure DriverConfig where
  internalAreg : Bool
  channels : List ChannelInput
  reset : ResetRegs

/-- The results of the calls of `codec_initialize` that access no register, and
of those that do. -/
structure InitIo where
  supply : Int
  gpio : Int
  pm : Int
  regs : Nat → Int

section

variable (config : DriverConfig)

/-- The reset of the device takes the registers with it. -/
def codecSoftReset (io : Int) (s : Codec) : Int × Codec :=
  let (ret, s) := codecWriteReg io swResetAddr swResetAssert s
  if ret ≠ 0 then (ret, s) else (0, codecInitial config.reset.val)

def codecConfigurePower (io : Int) (sleep : Bool) (s : Codec) : Int × Codec :=
  codecWriteReg io sleepCfgAddr
    ((if config.internalAreg then sleepCfgAregSelect else 0) |||
      if sleep then 0 else sleepCfgSleepEnz) s

/-- The loop of `codec_configure_input`, with the enabled channels so far. -/
def configureChannels (io : Nat → Int) :
    Nat → List ChannelInput → UInt8 → Codec → Int × UInt8 × Codec
  | _, [], en, s => (0, en, s)
  | k, channel :: channels, en, s =>
      if channel.channel < 1 ∨ channel.channel > codecNumChannels then (-einval, en, s)
      else
        let (ret, s) :=
          if channel.channel ≤ codecNumAnalogChannels then
            codecSetCfg0Analog (io k) channel.channel channel.lineIn channel.dcCoupled
              channel.impedanceOhms.toUInt32 false s
          else (0, s)
        if ret ≠ 0 then (ret, en, s)
        else
          let en := en ||| chEn channel.channel
          if channel.slot > 63 then (-einval, en, s)
          else
            let (ret, s) := codecWriteReg (io (k + 1)) (asiChAddr channel.channel)
              (asiChSlot.prep channel.slot.toNat) s
            if ret ≠ 0 then (ret, en, s) else configureChannels io (k + 2) channels en s

def codecConfigureInput (io : Nat → Int) (s : Codec) : Int × Codec :=
  if config.channels.length > codecNumChannels then (-einval, s)
  else
    let (ret, en, s) := configureChannels (fun k => io (k + 2)) 0 config.channels 0 s
    if ret ≠ 0 then (ret, s)
    else
      let (ret, s) := codecWriteReg (io 0) inChEnAddr en s
      if ret ≠ 0 then (ret, s) else codecWriteReg (io 1) asiOutChEnAddr en s

def codecInitialize (io : InitIo) (s : Codec) : Int × Codec :=
  if io.supply ≠ 0 then (io.supply, s)
  else
    let (ret, s) := codecSoftReset config (io.regs 0) s
    if ret ≠ 0 then (ret, s)
    else
      let (ret, s) := codecConfigurePower config (io.regs 1) false s
      if ret ≠ 0 then (ret, s)
      else
        let (ret, s) := codecConfigureInput config (fun k => io.regs (k + 2)) s
        if ret ≠ 0 then (ret, s) else if io.gpio ≠ 0 then (io.gpio, s) else (io.pm, s)

end

def stored (property : Property) (channel : Nat) (s : Codec) : UInt8 :=
  match property with
  | .source => 0
  | .analogGain => s.regs (chCfg1Addr channel)
  | .digitalGain => (s.channels (channel - 1)).dvol
  | .mute => (s.channels (channel - 1)).mute.toUInt8
  | .impedance => s.regs (chCfg0Addr channel)

/-- The volume register of a channel with `data`. -/
def volume (data : ChannelData) : UInt8 :=
  if data.mute then 0 else data.dvol

def storeData (channel : Nat) (data : ChannelData) (s : Codec) : Codec :=
  { setChannelData channel data s with
    regs := Function.update s.regs (chCfg2Addr channel) (volume data) }

def store (property : Property) (channel : Nat) (byte : UInt8) (s : Codec) : Codec :=
  match property with
  | .source => s
  | .analogGain => { s with regs := Function.update s.regs (chCfg1Addr channel) byte }
  | .digitalGain => storeData channel { s.channels (channel - 1) with dvol := byte } s
  | .mute => storeData channel { s.channels (channel - 1) with mute := byte != 0 } s
  | .impedance => { s with regs := Function.update s.regs (chCfg0Addr channel) byte }

/-- The volume registers follow the data of the channels. -/
def Volumes (s : Codec) : Prop :=
  ∀ channel, 1 ≤ channel → channel ≤ codecNumChannels →
    s.regs (chCfg2Addr channel) = volume (s.channels (channel - 1))

section

variable {channel other : Nat}

theorem chCfg0Addr_inj (hchannel : 1 ≤ channel) (hother : 1 ≤ other) :
    chCfg0Addr channel = chCfg0Addr other ↔ channel = other := by
  simp only [chCfg0Addr, RegAddr.mk.injEq, true_and]
  omega

theorem chCfg1Addr_inj (hchannel : 1 ≤ channel) (hother : 1 ≤ other) :
    chCfg1Addr channel = chCfg1Addr other ↔ channel = other := by
  simp only [chCfg1Addr, RegAddr.mk.injEq, true_and]
  omega

theorem chCfg2Addr_inj (hchannel : 1 ≤ channel) (hother : 1 ≤ other) :
    chCfg2Addr channel = chCfg2Addr other ↔ channel = other := by
  simp only [chCfg2Addr, RegAddr.mk.injEq, true_and]
  omega

@[simp] theorem chCfg0Addr_ne_chCfg1Addr : chCfg0Addr channel ≠ chCfg1Addr other := by
  simp only [chCfg0Addr, chCfg1Addr, ne_eq, RegAddr.mk.injEq, true_and]
  omega

@[simp] theorem chCfg0Addr_ne_chCfg2Addr : chCfg0Addr channel ≠ chCfg2Addr other := by
  simp only [chCfg0Addr, chCfg2Addr, ne_eq, RegAddr.mk.injEq, true_and]
  omega

@[simp] theorem chCfg1Addr_ne_chCfg2Addr : chCfg1Addr channel ≠ chCfg2Addr other := by
  simp only [chCfg1Addr, chCfg2Addr, ne_eq, RegAddr.mk.injEq, true_and]
  omega

theorem storeData_volumes {s : Codec} (hs : Volumes s) (hchannel : 1 ≤ channel)
    (data : ChannelData) : Volumes (storeData channel data s) := by
  intro other hlow hhigh
  simp only [storeData, setChannelData]
  rcases eq_or_ne other channel with rfl | hne
  · simp only [Function.update_self]
  · have hindex : other - 1 ≠ channel - 1 := by omega
    have haddr : chCfg2Addr other ≠ chCfg2Addr channel :=
      fun h => hne ((chCfg2Addr_inj hlow hchannel).mp h)
    rw [Function.update_of_ne haddr, Function.update_of_ne hindex]
    exact hs other hlow hhigh

theorem store_volumes {s : Codec} (hs : Volumes s) (property : Property)
    (hchannel : 1 ≤ channel) (byte : UInt8) : Volumes (store property channel byte s) := by
  cases property with
  | source => exact hs
  | analogGain =>
      intro other hlow hhigh
      simp only [store]
      rw [Function.update_of_ne chCfg1Addr_ne_chCfg2Addr.symm]
      exact hs other hlow hhigh
  | digitalGain => exact storeData_volumes hs hchannel _
  | mute => exact storeData_volumes hs hchannel _
  | impedance =>
      intro other hlow hhigh
      simp only [store]
      rw [Function.update_of_ne chCfg0Addr_ne_chCfg2Addr.symm]
      exact hs other hlow hhigh

theorem storeData_of_volume {s : Codec} {data : ChannelData}
    (hvolume : s.regs (chCfg2Addr channel) = volume data) :
    storeData channel data s = setChannelData channel data s := by
  simp only [storeData, setChannelData]
  rw [← hvolume, Function.update_eq_self]

theorem storeData_self {s : Codec} (hs : Volumes s) (hchannel : Analog channel) :
    storeData channel (s.channels (channel - 1)) s = s := by
  rw [storeData_of_volume (hs channel hchannel.1 (Nat.le_trans hchannel.2 (by decide))),
    setChannelData, Function.update_eq_self]

theorem chCfg2Dvol_prep (dvol : Nat) : chCfg2Dvol.prep dvol = UInt8.ofNat dvol := by
  apply UInt8.toNat_inj.mp
  simp only [chCfg2Dvol, Field.prep, UInt8.toNat_ofNat']
  omega

theorem stored_store_of_ne {property property' : Property} (hchannel : 1 ≤ channel)
    (hother : 1 ≤ other) (hne : other = channel → property' ≠ property) (byte : UInt8)
    (s : Codec) : stored property' other (store property channel byte s) =
      stored property' other s := by
  rcases eq_or_ne other channel with rfl | hchannels
  · have hproperty := hne rfl
    cases property <;> cases property' <;>
      simp [stored, store, storeData, setChannelData, ne_comm] at hproperty ⊢
  · have hindex : other - 1 ≠ channel - 1 := by omega
    have hcfg0 : chCfg0Addr other ≠ chCfg0Addr channel :=
      fun h => hchannels ((chCfg0Addr_inj hother hchannel).mp h)
    have hcfg1 : chCfg1Addr other ≠ chCfg1Addr channel :=
      fun h => hchannels ((chCfg1Addr_inj hother hchannel).mp h)
    cases property <;> cases property' <;>
      simp [stored, store, storeData, setChannelData, ne_comm, hindex, hcfg0, hcfg1]

end

section

variable (linearRange : LinearRangeUtils)

/-- The value that a byte stands for. -/
def decode (property : Property) (byte : UInt8) : Except Int PropertyValue :=
  match property with
  | .source => .error (-enotsup)
  | .analogGain => (linearRange.getValue analogGainRange (chCfg1Gain.get byte)).map .ofGain
  | .digitalGain => (linearRange.getValue digitalGainRange byte.toNat).map .ofGain
  | .mute => .ok ⟨if byte != 0 then 1 else 0⟩
  | .impedance => (impedanceAt (chCfg0Imp.get byte)).map .mk

/-- The value as `codec_get_property` returns it. -/
def canonical (property : Property) (val : PropertyValue) : PropertyValue :=
  match property with
  | .mute => ⟨if val.mute then 1 else 0⟩
  | _ => val

theorem codecGetProperty_eq {channel : AudioChannel} {index : Nat}
    (hindex : codecChannelToIndex channel = .ok index) (hanalog : Analog index)
    (property : Property) (s : Codec) :
    codecGetProperty linearRange property channel s =
      decode linearRange property (stored property index s) := by
  simp only [codecGetProperty, hindex]
  cases property with
  | source => rfl
  | analogGain => simp only [codecGetAnalogGain, if_neg hanalog.not_out, decode, stored]
  | digitalGain => simp only [codecGetDigitalGain, if_neg hanalog.not_out_of_all, decode, stored]
  | impedance =>
      simp only [codecGetImpedance, if_neg hanalog.not_out_of_all, if_neg hanalog.not_digital,
        decode, stored]
  | mute =>
      have hbyte : ∀ mute : Bool, (mute.toUInt8 != 0) = mute := by decide
      simp only [codecGetMute, if_neg hanalog.not_out_of_all, decode, stored, hbyte]
      rfl

/-- A set fails and changes nothing, or it stores a byte of the value. -/
def Stores (property : Property) (index : Nat) (val : PropertyValue) (s : Codec)
    (r : Int × Codec) : Prop :=
  (r.1 ≠ 0 ∧ r.2 = s) ∨
    (r.1 = 0 ∧ ∃ byte, decode linearRange property byte = .ok (canonical property val) ∧
      r.2 = store property index byte s)

theorem codecWriteReg_cases (io : Int) (reg : RegAddr) (byte : UInt8) (s : Codec) :
    ((codecWriteReg io reg byte s).1 ≠ 0 ∧ (codecWriteReg io reg byte s).2 = s) ∨
      codecWriteReg io reg byte s = (0, { s with regs := Function.update s.regs reg byte }) := by
  rcases eq_or_ne io 0 with rfl | hio
  · exact Or.inr (codecWriteReg_zero reg byte s)
  · rw [codecWriteReg, if_pos hio]
    exact Or.inl ⟨hio, rfl⟩

variable {index : Nat} {s : Codec}

theorem codecSetAnalogGain_stores (hindex : Analog index) (io : Int) (val : PropertyValue) :
    Stores linearRange .analogGain index val s
      (codecSetAnalogGain linearRange io index val.gain s) := by
  cases hgain : linearRange.getIndex analogGainRange val.gain with
  | error ret =>
      rw [codecSetAnalogGain_error linearRange hindex hgain]
      exact Or.inl ⟨linearRange.getIndex_error _ _ _ hgain, rfl⟩
  | ok idx =>
      have hle : idx ≤ 84 := linearRange.getIndex_le _ _ _ rfl (by decide) hgain
      rw [codecSetAnalogGain_eq linearRange hindex hgain]
      rcases codecWriteReg_cases io (chCfg1Addr index) (chCfg1Gain.prep idx) s with hfail | hdone
      · exact Or.inl hfail
      · rw [hdone]
        refine Or.inr ⟨rfl, chCfg1Gain.prep idx, ?_, rfl⟩
        simp only [decode, chCfg1Gain_get_prep hle]
        rw [linearRange.getValue_getIndex _ _ _ rfl (by decide) hgain]
        exact congrArg Except.ok val.ofGain_gain

theorem codecSetImpedance_stores (config : List ChannelConfig) (hindex : Analog index) (io : Int)
    (val : PropertyValue) :
    Stores linearRange .impedance index val s
      (codecSetImpedance config io index val.impedance s) := by
  cases himp : impedanceIndex val.impedance with
  | none =>
      rw [codecSetImpedance_error config hindex himp]
      have hret : -einval ≠ 0 := by decide
      exact Or.inl ⟨hret, rfl⟩
  | some imp =>
      obtain ⟨lineIn, dcCoupled, hset⟩ := codecSetImpedance_eq config hindex himp io s
      rw [hset]
      generalize hbyte : ((if lineIn then chCfg0Intyp else 0) |||
        (if dcCoupled then chCfg0Dc else 0) ||| chCfg0Imp.prep imp |||
          (if false then chCfg0Dreen else 0)) = byte
      rcases codecWriteReg_cases io (chCfg0Addr index) byte s with hfail | hdone
      · exact Or.inl hfail
      · rw [hdone]
        refine Or.inr ⟨rfl, byte, ?_, rfl⟩
        simp only [decode, ← hbyte, chCfg0Imp_get_prep himp, impedanceAt_impedanceIndex himp]
        rfl

theorem codecSetDigitalGain_stores (hs : Volumes s) (hindex : Analog index) (io : Int)
    (val : PropertyValue) :
    Stores linearRange .digitalGain index val s
      (codecSetDigitalGain linearRange io index val.gain s) := by
  cases hgain : linearRange.getIndex digitalGainRange val.gain with
  | error ret =>
      rw [codecSetDigitalGain_error linearRange hindex hgain]
      exact Or.inl ⟨linearRange.getIndex_error _ _ _ hgain, rfl⟩
  | ok dvol =>
      have hle : dvol ≤ 255 := linearRange.getIndex_le _ _ _ rfl (by decide) hgain
      have hbyte : (UInt8.ofNat dvol).toNat = dvol := by
        rw [UInt8.toNat_ofNat']
        omega
      have hdecode : decode linearRange .digitalGain (UInt8.ofNat dvol) =
          .ok (canonical .digitalGain val) := by
        simp only [decode, hbyte]
        rw [linearRange.getValue_getIndex _ _ _ rfl (by decide) hgain]
        exact congrArg Except.ok val.ofGain_gain
      have hregister := hs index hindex.1 (Nat.le_trans hindex.2 (by decide))
      rw [codecSetDigitalGain, if_neg hindex.not_out_of_all]
      simp only [hgain]
      split
      · -- The gain is the cached one.
        rename_i hsame
        refine Or.inr ⟨rfl, UInt8.ofNat dvol, hdecode, ?_⟩
        rw [hsame, UInt8.ofNat_toNat]
        exact (storeData_self hs hindex).symm
      · split
        · -- The register keeps the volume 0 of a muted channel.
          rename_i hmute
          refine Or.inr ⟨rfl, UInt8.ofNat dvol, hdecode, ?_⟩
          refine (storeData_of_volume ?_).symm
          rw [hregister]
          simp only [volume, if_pos hmute]
        · rename_i hmute
          rcases codecWriteReg_cases io (chCfg2Addr index) (chCfg2Dvol.prep dvol) s with
            hfail | hdone
          · rw [if_pos hfail.1]
            exact Or.inl hfail
          · rw [hdone]
            refine Or.inr ⟨rfl, UInt8.ofNat dvol, hdecode, ?_⟩
            simp only [store, storeData, setChannelData, chCfg2Dvol_prep, volume, if_neg hmute]
            rfl

theorem codecSetMute_stores (hs : Volumes s) (hindex : Analog index) (io : Int)
    (val : PropertyValue) :
    Stores linearRange .mute index val s (codecSetMute io index val.mute s) := by
  have hbyte : ∀ mute : Bool, (mute.toUInt8 != 0) = mute := by decide
  have hdecode : decode linearRange .mute val.mute.toUInt8 = .ok (canonical .mute val) := by
    simp only [decode, canonical, hbyte]
  rw [codecSetMute, if_neg hindex.not_out_of_all]
  simp only
  split
  · rename_i hsame
    refine Or.inr ⟨rfl, val.mute.toUInt8, hdecode, ?_⟩
    simp only [store, hbyte]
    rw [hsame]
    exact (storeData_self hs hindex).symm
  · rcases codecWriteReg_cases io (chCfg2Addr index) (chCfg2Dvol.prep
        (if val.mute then 0 else (s.channels (index - 1)).dvol.toNat)) s with hfail | hdone
    · rw [if_pos hfail.1]
      exact Or.inl hfail
    · rw [hdone]
      refine Or.inr ⟨rfl, val.mute.toUInt8, hdecode, ?_⟩
      simp only [store, hbyte, storeData, setChannelData, chCfg2Dvol_prep, volume]
      cases val.mute with
      | false => simp
      | true => simp

end

theorem codecWriteReg_volumes {s : Codec} (hs : Volumes s) (io : Int) {reg : RegAddr}
    (hreg : ∀ channel, channel ≤ codecNumChannels → chCfg2Addr channel ≠ reg) (byte : UInt8) :
    Volumes (codecWriteReg io reg byte s).2 := by
  obtain ⟨hchannels, hregs⟩ := codecWriteReg_spec io reg byte s
  intro channel hlow hhigh
  rw [hregs _ (hreg channel hhigh), hchannels]
  exact hs channel hlow hhigh

theorem codecSetCfg0Analog_volumes {s : Codec} (hs : Volumes s) (io : Int) (channel : Nat)
    (lineIn dcCoupled : Bool) (impedance : UInt32) (dre : Bool) :
    Volumes (codecSetCfg0Analog io channel lineIn dcCoupled impedance dre s).2 := by
  rw [codecSetCfg0Analog]
  split
  · exact hs
  · split
    · exact hs
    · exact codecWriteReg_volumes hs io (fun _ _ => chCfg0Addr_ne_chCfg2Addr.symm) _

theorem configureChannels_volumes (io : Nat → Int) (channels : List ChannelInput) (k : Nat)
    (en : UInt8) {s : Codec} (hs : Volumes s) :
    Volumes (configureChannels io k channels en s).2.2 := by
  induction channels generalizing k en s with
  | nil => exact hs
  | cons channel channels ih =>
      rw [configureChannels]
      split
      · exact hs
      · rename_i hchannel
        have hslot : ∀ other, other ≤ codecNumChannels →
            chCfg2Addr other ≠ asiChAddr channel.channel := by
          intro other hother
          simp only [codecNumChannels] at hchannel hother
          simp only [chCfg2Addr, asiChAddr, ne_eq, RegAddr.mk.injEq, true_and]
          omega
        generalize hr : (if channel.channel ≤ codecNumAnalogChannels then
          codecSetCfg0Analog (io k) channel.channel channel.lineIn channel.dcCoupled
            channel.impedanceOhms.toUInt32 false s else (0, s)) = r
        have hcfg0 : Volumes r.2 := by
          rw [← hr]
          split
          · exact codecSetCfg0Analog_volumes hs _ _ _ _ _ _
          · exact hs
        have hasi := codecWriteReg_volumes hcfg0 (io (k + 1)) hslot
          (asiChSlot.prep channel.slot.toNat)
        simp only
        split
        · exact hcfg0
        · split
          · exact hcfg0
          · split
            · exact hasi
            · exact ih _ _ hasi

theorem codecConfigureInput_volumes (config : DriverConfig) (io : Nat → Int) {s : Codec}
    (hs : Volumes s) : Volumes (codecConfigureInput config io s).2 := by
  have henable : ∀ (reg : RegAddr), reg = inChEnAddr ∨ reg = asiOutChEnAddr →
      ∀ channel, channel ≤ codecNumChannels → chCfg2Addr channel ≠ reg := by
    rintro reg (rfl | rfl) channel hchannel <;>
      simp only [codecNumChannels] at hchannel <;>
      simp only [chCfg2Addr, inChEnAddr, asiOutChEnAddr, ne_eq, RegAddr.mk.injEq, true_and] <;>
      omega
  have hchannels := configureChannels_volumes (fun k => io (k + 2)) config.channels 0 0 hs
  rw [codecConfigureInput]
  split
  · exact hs
  · simp only
    split
    · exact hchannels
    · have hin := codecWriteReg_volumes hchannels (io 0) (henable _ (Or.inl rfl))
        (configureChannels (fun k => io (k + 2)) 0 config.channels 0 s).2.1
      split
      · exact hin
      · exact codecWriteReg_volumes hin _ (henable _ (Or.inr rfl)) _

theorem codecSoftReset_volumes (config : DriverConfig) (io : Int) (s : Codec)
    (h : (codecSoftReset config io s).1 = 0) : Volumes (codecSoftReset config io s).2 := by
  simp only [codecSoftReset] at h ⊢
  split at h
  · rename_i hret
    exact absurd h hret
  · rename_i hret
    rw [if_neg hret]
    exact config.reset.property

theorem codecInitialize_volumes (config : DriverConfig) (io : InitIo) (s : Codec)
    (h : (codecInitialize config io s).1 = 0) : Volumes (codecInitialize config io s).2 := by
  simp only [codecInitialize] at h ⊢
  split at h
  · contradiction
  · split at h
    · contradiction
    · rename_i hsupply hreset
      have hvolumes := codecSoftReset_volumes config _ s (not_not.mp hreset)
      have hsleep : ∀ channel, channel ≤ codecNumChannels → chCfg2Addr channel ≠ sleepCfgAddr := by
        intro channel hchannel
        simp only [chCfg2Addr, sleepCfgAddr, ne_eq, RegAddr.mk.injEq, true_and]
        omega
      rw [if_neg hsupply, if_neg hreset]
      have hpower := codecWriteReg_volumes hvolumes (io.regs 1) hsleep
        ((if config.internalAreg then sleepCfgAregSelect else 0) |||
          if false then 0 else sleepCfgSleepEnz)
      have hinput := codecConfigureInput_volumes config (fun k => io.regs (k + 2)) hpower
      split
      · exact hpower
      · split
        · exact hinput
        · split
          · exact hinput
          · exact hinput

/-! Runs of `codec_set_property`. `io` is the result of the write of a call. -/

structure SetCall where
  property : Property
  channel : AudioChannel
  val : PropertyValue
  io : Int
  deriving DecidableEq, Repr

section

variable (linearRange : LinearRangeUtils) (config : List ChannelConfig)

def SetCall.result (call : SetCall) (s : Codec) : Int × Codec :=
  codecSetProperty linearRange config call.io call.property call.channel call.val s

def setStep (s : Codec) (call : SetCall) : Codec :=
  (call.result linearRange config s).2

/-- The value of the last call for a property that returned 0. -/
def lastSet (property : Property) (channel : AudioChannel) :
    Codec → List SetCall → Option PropertyValue
  | _, [] => none
  | s, call :: calls =>
      (lastSet property channel (setStep linearRange config s call) calls).or
        (if call.property = property ∧ call.channel = channel ∧
          (call.result linearRange config s).1 = 0 then some call.val else none)

/-- Other properties and the properties of other channels stay as they are. -/
def OthersKept (s : Codec) (call : SetCall) : Prop :=
  ∀ property channel, (property, channel) ≠ (call.property, call.channel) →
    codecGetProperty linearRange property channel (setStep linearRange config s call) =
      codecGetProperty linearRange property channel s

/-- In a muted channel a gain does not reach the registers before the channel is
unmuted, and then it does. -/
def GainDeferred (s : Codec) (call : SetCall) : Prop :=
  ∀ index, codecChannelToIndex call.channel = .ok index → (s.channels (index - 1)).mute = true →
    (call.property = .digitalGain → (setStep linearRange config s call).regs = s.regs) ∧
      (call.property = .mute → call.val.mute = false →
        (call.result linearRange config s).1 = 0 →
          (setStep linearRange config s call).regs (chCfg2Addr index) =
            (s.channels (index - 1)).dvol)

variable {linearRange config}

theorem result_of_error {call : SetCall} {ret : Int}
    (hchannel : codecChannelToIndex call.channel = .error ret) (s : Codec) :
    (call.result linearRange config s).1 ≠ 0 ∧ setStep linearRange config s call = s := by
  have hret : ret ≠ 0 := by
    cases h : call.channel with
    | frontLeft | frontRight => rw [h] at hchannel; cases hchannel
    | other channel =>
        rw [h] at hchannel
        obtain rfl := Except.error.inj hchannel
        decide
  simp only [setStep, SetCall.result, codecSetProperty, hchannel]
  exact ⟨hret, trivial⟩

variable (linearRange config) in
theorem result_stores {s : Codec} (hs : Volumes s) (call : SetCall) {index : Nat}
    (hindex : codecChannelToIndex call.channel = .ok index) :
    Stores linearRange call.property index call.val s (call.result linearRange config s) := by
  have hanalog := analog_of_codecChannelToIndex hindex
  have hret : -enotsup ≠ 0 := by decide
  simp only [SetCall.result, codecSetProperty, hindex]
  cases call.property with
  | source => exact Or.inl ⟨hret, rfl⟩
  | analogGain => exact codecSetAnalogGain_stores linearRange hanalog call.io call.val
  | digitalGain => exact codecSetDigitalGain_stores linearRange hs hanalog call.io call.val
  | mute => exact codecSetMute_stores linearRange hs hanalog call.io call.val
  | impedance => exact codecSetImpedance_stores linearRange config hanalog call.io call.val

theorem setStep_volumes {s : Codec} (hs : Volumes s) (call : SetCall) :
    Volumes (setStep linearRange config s call) := by
  cases hindex : codecChannelToIndex call.channel with
  | error ret =>
      rw [(result_of_error hindex s).2]
      exact hs
  | ok index =>
      rcases result_stores linearRange config hs call hindex with ⟨-, hsame⟩ | ⟨-, byte, -, hstore⟩
      · rw [setStep, hsame]
        exact hs
      · rw [setStep, hstore]
        exact store_volumes hs _ (analog_of_codecChannelToIndex hindex).1 byte

theorem othersKept {s : Codec} (hs : Volumes s) (call : SetCall) :
    OthersKept linearRange config s call := by
  intro property channel hne
  cases hindex : codecChannelToIndex call.channel with
  | error ret => rw [(result_of_error hindex s).2]
  | ok index =>
      rcases result_stores linearRange config hs call hindex with ⟨-, hsame⟩ | ⟨-, byte, -, hstore⟩
      · rw [setStep, hsame]
      · rw [setStep, hstore]
        have hanalog := analog_of_codecChannelToIndex hindex
        cases hother : codecChannelToIndex channel with
        | error ret => simp only [codecGetProperty, hother]
        | ok other =>
            have hanalog' := analog_of_codecChannelToIndex hother
            rw [codecGetProperty_eq linearRange hother hanalog',
              codecGetProperty_eq linearRange hother hanalog', stored_store_of_ne hanalog.1
              hanalog'.1]
            rintro rfl rfl
            exact hne (Prod.ext rfl (codecChannelToIndex_injective hother hindex))

theorem gainDeferred {s : Codec} (hs : Volumes s) (call : SetCall) :
    GainDeferred linearRange config s call := by
  intro index hindex hmute
  have hanalog := analog_of_codecChannelToIndex hindex
  have hregister := hs index hanalog.1 (Nat.le_trans hanalog.2 (by decide))
  have hstores := result_stores linearRange config hs call hindex
  constructor
  · intro hproperty
    rcases hstores with ⟨-, hsame⟩ | ⟨-, byte, -, hstore⟩
    · rw [setStep, hsame]
    · rw [setStep, hstore, hproperty]
      simp only [store, storeData, setChannelData, volume, if_pos hmute] at hregister ⊢
      rw [← hregister, Function.update_eq_self]
  · intro hproperty hval hret
    rcases hstores with ⟨hfail, -⟩ | ⟨-, byte, hdecode, hstore⟩
    · exact absurd hret hfail
    · rw [hproperty] at hdecode
      have hbyte : (byte != 0) = false := by
        simp only [decode, canonical, hval] at hdecode
        cases hbyte : (byte != 0) with
        | false => rfl
        | true =>
            rw [hbyte] at hdecode
            exact absurd hdecode (by decide)
      rw [setStep, hstore, hproperty]
      simp only [store, storeData, hbyte, Function.update_self, volume]
      rfl

theorem decode_stored_store {index : Nat} (property : Property)
    (byte : UInt8) (s : Codec) :
    decode linearRange property (stored property index (store property index byte s)) =
      decode linearRange property byte := by
  have hmute : ∀ mute : Bool, (mute.toUInt8 != 0) = mute := by decide
  cases property with
  | source => rfl
  | mute =>
      simp only [decode, stored, store, storeData, setChannelData, Function.update_self, hmute]
  | analogGain | digitalGain | impedance =>
      simp only [stored, store, storeData, setChannelData, Function.update_self]

theorem codecGetProperty_setStep {s : Codec} (hs : Volumes s) (call : SetCall)
    (hret : (call.result linearRange config s).1 = 0) :
    codecGetProperty linearRange call.property call.channel (setStep linearRange config s call) =
      .ok (canonical call.property call.val) := by
  cases hindex : codecChannelToIndex call.channel with
  | error ret => exact absurd hret (result_of_error hindex s).1
  | ok index =>
      have hanalog := analog_of_codecChannelToIndex hindex
      rcases result_stores linearRange config hs call hindex with
        ⟨hfail, -⟩ | ⟨-, byte, hdecode, hstore⟩
      · exact absurd hret hfail
      · rw [codecGetProperty_eq linearRange hindex hanalog, setStep, hstore,
          decode_stored_store, hdecode]

theorem setStep_of_result_ne {s : Codec} (hs : Volumes s) (call : SetCall)
    (hret : (call.result linearRange config s).1 ≠ 0) : setStep linearRange config s call = s := by
  cases hindex : codecChannelToIndex call.channel with
  | error ret => exact (result_of_error hindex s).2
  | ok index =>
      rcases result_stores linearRange config hs call hindex with ⟨-, hsame⟩ | ⟨hok, -⟩
      · exact hsame
      · exact absurd hok hret

theorem codecGetProperty_run {s : Codec} (hs : Volumes s) (calls : List SetCall)
    (property : Property) (channel : AudioChannel) :
    codecGetProperty linearRange property channel (run (setStep linearRange config) s calls) =
      ((lastSet linearRange config property channel s calls).map fun val =>
        Except.ok (canonical property val)).getD
          (codecGetProperty linearRange property channel s) := by
  induction calls generalizing s with
  | nil => rfl
  | cons call calls ih =>
      rw [run_cons, ih (setStep_volumes hs call), lastSet]
      cases lastSet linearRange config property channel (setStep linearRange config s call)
        calls with
      | some val => rfl
      | none =>
          rw [Option.none_or]
          split
          · rename_i hset
            obtain ⟨rfl, rfl, hret⟩ := hset
            exact codecGetProperty_setStep hs call hret
          · rename_i hset
            rcases Classical.em ((call.result linearRange config s).1 = 0) with hret | hret
            · apply othersKept hs call
              rintro heq
              obtain ⟨rfl, rfl⟩ := Prod.mk.inj heq
              exact hset ⟨rfl, rfl, hret⟩
            · rw [setStep_of_result_ne hs call hret]

theorem properties_of_volumes {s : Codec} (hs : Volumes s) (calls : List SetCall) :
    Volumes (run (setStep linearRange config) s calls) ∧
      Along (setStep linearRange config) (OthersKept linearRange config) s calls ∧
      Along (setStep linearRange config) (GainDeferred linearRange config) s calls := by
  have hstep : ∀ s call, Volumes s → Volumes (setStep linearRange config s call) :=
    fun _ call hs => setStep_volumes hs call
  refine ⟨invariant_run_of_step hstep hs calls, ?_, ?_⟩
  · exact along_of_step_invariant hstep (fun _ call hs => othersKept hs call) hs calls
  · exact along_of_step_invariant hstep (fun _ call hs => gainDeferred hs call) hs calls

end

/-- After the codec is initialized every property has the value of the last call
that set it, or its first one; no call changes another property; and the volume
registers follow the data of the channels. -/
theorem properties_of_initialized (linearRange : LinearRangeUtils) (driver : DriverConfig)
    (io : InitIo) (s : Codec) (calls : List SetCall)
    (hinit : (codecInitialize driver io s).1 = 0) :
    let config := driver.channels.map ChannelInput.toChannelConfig
    let step := setStep linearRange config
    let initial := (codecInitialize driver io s).2
    (∀ property channel,
      codecGetProperty linearRange property channel (run step initial calls) =
        ((lastSet linearRange config property channel initial calls).map fun val =>
          Except.ok (canonical property val)).getD
            (codecGetProperty linearRange property channel initial)) ∧
      Along step (OthersKept linearRange config) initial calls ∧
      Volumes (run step initial calls) ∧
      Along step (GainDeferred linearRange config) initial calls := by
  have hs := codecInitialize_volumes driver io s hinit
  obtain ⟨hvolumes, hothers, hdeferred⟩ := properties_of_volumes hs calls
  exact ⟨fun property channel => codecGetProperty_run hs calls property channel, hothers, hvolumes,
    hdeferred⟩

def stereoDriver : DriverConfig where
  internalAreg := false
  channels := [⟨⟨1, true, true⟩, 10000, 0⟩, ⟨⟨2, true, true⟩, 10000, 1⟩]
  reset := ⟨fun _ => codecDefaultDvol, fun _ _ _ => rfl⟩

/-- The gain of a muted channel, whose unmuting fails. -/
theorem muted_gain_kept :
    (codecInitialize stereoDriver ⟨0, 0, 0, fun _ => 0⟩ (codecInitial fun _ => 0)).1 = 0 ∧
      codecGetProperty linearRangeUtils .digitalGain .frontLeft
        (run (setStep linearRangeUtils (stereoDriver.channels.map ChannelInput.toChannelConfig))
          (codecInitialize stereoDriver ⟨0, 0, 0, fun _ => 0⟩ (codecInitial fun _ => 0)).2
          [⟨.mute, .frontLeft, ⟨1⟩, 0⟩, ⟨.digitalGain, .frontLeft, .ofGain (-40), 0⟩,
            ⟨.mute, .frontLeft, ⟨0⟩, -5⟩, ⟨.digitalGain, .frontRight, .ofGain 20, 0⟩]) =
        .ok (.ofGain (-40)) :=
  ⟨by decide +kernel,
    ((properties_of_initialized linearRangeUtils stereoDriver ⟨0, 0, 0, fun _ => 0⟩
      (codecInitial fun _ => 0) _ (by decide +kernel)).1 .digitalGain .frontLeft).trans
      (by decide +kernel)⟩

end ZeusLe.CodecProperties
