import ZeusLe.Lp58xxEngine

/-!
The patterns of the LED, `led.c`: what each of them configures, and the state that
one is selected from.
-/

namespace ZeusLe.LedPattern

open ZeusLe.Lp58xxEngine (AeuConfig AeConfig lp58xxAeuRepeatInfinite)
open scoped ZeusLe.Lp58xxEngine

def ledBlue : Nat := 0

def ledGreen : Nat := 1

def ledRed : Nat := 2

def ledFadeMs : UInt16 := 360

/-- A unit that an initializer leaves out. -/
def zeroAeu : AeuConfig :=
  ⟨Vector.replicate 5 0, Vector.replicate 4 0, 0⟩

def ledAeuFade (startPwm endPwm : UInt8) : AeuConfig :=
  ⟨#v[startPwm, endPwm, 0, 0, 0], #v[ledFadeMs, 0, 0, 0], 0⟩

def ledAeuConstant (pwmVal : UInt8) : AeuConfig :=
  ⟨#v[pwmVal, pwmVal, pwmVal, pwmVal, pwmVal], #v[8050, 8050, 8050, 8050],
    lp58xxAeuRepeatInfinite⟩

def ledAeuScale (aeu : AeuConfig) (scalePwm : UInt8) : AeuConfig :=
  { aeu with pwm := aeu.pwm.map fun pwm => UInt8.ofNat (pwm.toNat * scalePwm.toNat / 255) }

/-- The third unit is a copy of the second one. -/
def ledAeScale (ae : AeConfig) (scalePwm : UInt8) : AeConfig :=
  { ae with aeu := #v[ledAeuScale ae.aeu[0] scalePwm, ledAeuScale ae.aeu[1] scalePwm,
    ledAeuScale ae.aeu[1] scalePwm] }

inductive Node where
  | audio
  | central
  deriving DecidableEq, Repr

inductive PowerState where
  | unknown
  | on
  | off
  deriving DecidableEq, Repr

inductive RecordState where
  | waiting
  | running
  | idle
  deriving DecidableEq, Repr

inductive BatteryState where
  | discharging
  | charging
  | full
  | error
  deriving DecidableEq, Repr

/-- `enum led_pattern`; the idle patterns are those of the two nodes. -/
inductive Pattern where
  | off
  | startup
  | batteryCharging
  | batteryFull
  | idleSynced
  | idleNotSynced
  | idle
  | recordWaiting
  | recordRunning
  deriving DecidableEq, Repr

/-- `struct led_data`; only an audio node has `synced`. -/
structure LedData where
  powerState : PowerState
  batteryState : BatteryState
  synced : Bool
  recordState : RecordState
  pattern : Pattern
  deriving DecidableEq, Repr

def ledData : LedData :=
  ⟨.unknown, .discharging, false, .idle, .off⟩

/-- A function that configures channels one after the other and starts them, most
of them after the colour that is shown was read. -/
structure PatternFunc where
  pauses : Bool
  channels : (Nat → UInt8) → List (Nat × AeConfig)

def ledConfigureFadeOut (channel : Nat) (startPwm : UInt8) : Nat × AeConfig :=
  (channel, ⟨0, 0, 1, 0, #v[ledAeuFade startPwm 0, zeroAeu, zeroAeu]⟩)

def ledPatternOff : PatternFunc where
  pauses := true
  channels startPwm :=
    [ledConfigureFadeOut ledBlue (startPwm ledBlue),
      ledConfigureFadeOut ledGreen (startPwm ledGreen),
      ledConfigureFadeOut ledRed (startPwm ledRed)]

def ledPatternStartup : Node → PatternFunc
  | .audio =>
      let aeCfg : AeConfig :=
        ⟨0, 0, 2, 0, #v[⟨#v[0, 255, 100, 100, 100], #v[540, 360, 0, 0], 0⟩,
          ⟨#v[100, 50, 2, 50, 100], #v[360, 360, 360, 360], lp58xxAeuRepeatInfinite⟩, zeroAeu]⟩
      { pauses := false
        channels := fun _ => [(ledBlue, aeCfg)] }
  | .central =>
      let aeCfg : AeConfig :=
        ⟨0, 0, 2, 0, #v[⟨#v[0, 255, 50, 50, 50], #v[540, 540, 0, 0], 0⟩, ledAeuConstant 50,
          zeroAeu]⟩
      { pauses := false
        channels := fun _ => [(ledRed, ledAeScale aeCfg 70), (ledBlue, ledAeScale aeCfg 100)] }

def ledPatternBatteryCharging : PatternFunc where
  pauses := true
  channels startPwm :=
    [ledConfigureFadeOut ledBlue (startPwm ledBlue),
      (ledGreen, ⟨0, 0, 2, 0, #v[
        ⟨#v[startPwm ledGreen, 0, 0, 50, 50], #v[ledFadeMs, 360, 360, 0], 0⟩,
        ⟨#v[50, 20, 2, 20, 50], #v[540, 800, 800, 540], lp58xxAeuRepeatInfinite⟩, zeroAeu]⟩),
      ledConfigureFadeOut ledRed (startPwm ledRed)]

def ledPatternBatteryFull : PatternFunc where
  pauses := true
  channels startPwm :=
    [ledConfigureFadeOut ledBlue (startPwm ledBlue),
      (ledGreen, ⟨0, 0, 2, 0, #v[ledAeuFade (startPwm ledGreen) 50, ledAeuConstant 50, zeroAeu]⟩),
      ledConfigureFadeOut ledRed (startPwm ledRed)]

def ledPatternIdleSynced : PatternFunc where
  pauses := true
  channels startPwm :=
    [(ledBlue, ⟨0, 0, 2, 0, #v[ledAeuFade (startPwm ledBlue) 50, ledAeuConstant 50, zeroAeu]⟩),
      ledConfigureFadeOut ledGreen (startPwm ledGreen),
      ledConfigureFadeOut ledRed (startPwm ledRed)]

def ledPatternIdleNotSynced : PatternFunc where
  pauses := true
  channels startPwm :=
    [(ledBlue, ⟨0, 0, 2, 0, #v[ledAeuFade (startPwm ledBlue) 100,
        ⟨#v[100, 50, 2, 50, 100], #v[360, 360, 360, 360], lp58xxAeuRepeatInfinite⟩, zeroAeu]⟩),
      ledConfigureFadeOut ledGreen (startPwm ledGreen),
      ledConfigureFadeOut ledRed (startPwm ledRed)]

def ledPatternIdle : PatternFunc where
  pauses := true
  channels startPwm :=
    [(ledRed, ⟨0, 0, 2, 0, #v[ledAeuFade (startPwm ledRed) 19, ledAeuConstant 19, zeroAeu]⟩),
      ledConfigureFadeOut ledGreen (startPwm ledGreen),
      (ledBlue, ⟨0, 0, 2, 0, #v[ledAeuFade (startPwm ledBlue) 14, ledAeuConstant 14, zeroAeu]⟩)]

def ledPatternRecordWaiting : PatternFunc where
  pauses := true
  channels startPwm :=
    [ledConfigureFadeOut ledBlue (startPwm ledBlue),
      (ledGreen, ⟨0, 0, 2, 0, #v[
        ⟨#v[startPwm ledGreen, 100, 100, 100, 100], #v[90, 0, 0, 0], 0⟩,
        ⟨#v[100, 2, 100, 0, 0], #v[90, 90, 0, 0], lp58xxAeuRepeatInfinite⟩, zeroAeu]⟩),
      ledConfigureFadeOut ledRed (startPwm ledRed)]

def ledPatternRecordRunning : PatternFunc where
  pauses := true
  channels startPwm :=
    [ledConfigureFadeOut ledBlue (startPwm ledBlue),
      ledConfigureFadeOut ledGreen (startPwm ledGreen),
      (ledRed, ⟨0, 0, 1, 0, #v[⟨#v[startPwm ledRed, 150, 0, 0, 0], #v[180, 800, 0, 0], 0⟩,
        zeroAeu, zeroAeu]⟩)]

/-- Not a pattern that can be selected: a pulse while the node records. -/
def ledPatternRecordSyncPulse : PatternFunc where
  pauses := true
  channels startPwm :=
    [ledConfigureFadeOut ledBlue (startPwm ledBlue),
      ledConfigureFadeOut ledGreen (startPwm ledGreen),
      (ledRed, ⟨0, 0, 1, 0, #v[⟨#v[startPwm ledRed, 100, 0, 0, 0], #v[90, 90, 0, 0], 0⟩,
        zeroAeu, zeroAeu]⟩)]

/-- `led_config.patterns`. -/
def patterns : Node → Pattern → Option PatternFunc
  | _, .off => some ledPatternOff
  | node, .startup => some (ledPatternStartup node)
  | _, .batteryCharging => some ledPatternBatteryCharging
  | _, .batteryFull => some ledPatternBatteryFull
  | .audio, .idleSynced => some ledPatternIdleSynced
  | .audio, .idleNotSynced => some ledPatternIdleNotSynced
  | .central, .idle => some ledPatternIdle
  | _, .recordWaiting => some ledPatternRecordWaiting
  | _, .recordRunning => some ledPatternRecordRunning
  | _, _ => none

/-- The pattern that `led_update` selects. -/
def selected (node : Node) (data : LedData) : Pattern :=
  match data.powerState with
  | .on =>
      match data.recordState with
      | .waiting => .recordWaiting
      | .running => .recordRunning
      | .idle =>
          match node with
          | .audio => if data.synced then .idleSynced else .idleNotSynced
          | .central => .idle
  | .off =>
      match data.batteryState with
      | .charging => .batteryCharging
      | .full => .batteryFull
      | .discharging | .error => .off
  | .unknown => .off

theorem patterns_selected (node : Node) (data : LedData) :
    ∃ f, patterns node (selected node data) = some f := by
  obtain ⟨power, battery, synced, record, pattern⟩ := data
  cases power with
  | unknown => exact ⟨_, rfl⟩
  | off => cases battery <;> exact ⟨_, rfl⟩
  | on =>
      cases record with
      | waiting => exact ⟨_, rfl⟩
      | running => exact ⟨_, rfl⟩
      | idle =>
          cases node with
          | audio => cases synced <;> exact ⟨_, rfl⟩
          | central => exact ⟨_, rfl⟩

/-- The calls that go through `led_update`. -/
inductive Update : Node → Type where
  | batteryCharging {node : Node} : Update node
  | batteryFull {node : Node} : Update node
  | batteryDischarging {node : Node} : Update node
  | syncStarted : Update .audio
  | syncTerminated : Update .audio
  | recordWaiting {node : Node} : Update node
  | recordStarted {node : Node} : Update node
  | recordStopped {node : Node} : Update node
  | shutdown {node : Node} : Update node
  deriving DecidableEq, Repr

/-- What a call notes. -/
def Update.note {node : Node} (data : LedData) : Update node → LedData
  | .batteryCharging => { data with batteryState := .charging }
  | .batteryFull => { data with batteryState := .full }
  | .batteryDischarging => { data with batteryState := .discharging }
  | .syncStarted => { data with synced := true }
  | .syncTerminated => { data with synced := false }
  | .recordWaiting => { data with recordState := .waiting }
  | .recordStarted => { data with recordState := .running }
  | .recordStopped => { data with recordState := .idle }
  | .shutdown => { data with powerState := .off }

theorem Update.note_pattern {node : Node} (call : Update node) (data : LedData) :
    (call.note data).pattern = data.pattern := by
  cases call <;> rfl

/-- Every time is one that the engine has. -/
def AeuFits (aeu : AeuConfig) : Prop :=
  ∀ msec ∈ aeu.timeMsec.toList, msec.toNat ∈ Lp58xxEngine.aeTimes

instance : DecidablePred AeuFits := fun aeu =>
  List.decidableBAll (fun msec : UInt16 => msec.toNat ∈ Lp58xxEngine.aeTimes) aeu.timeMsec.toList

def AeFits (ae : AeConfig) : Prop :=
  ae.pauseStartMsec.toNat ∈ Lp58xxEngine.aeTimes ∧ ae.pauseEndMsec.toNat ∈ Lp58xxEngine.aeTimes ∧
    ∀ aeu ∈ ae.aeu.toList, AeuFits aeu

instance (ae : AeConfig) : Decidable (AeFits ae) :=
  inferInstanceAs (Decidable (_ ∧ _))

/-- A function that `led.c` runs. -/
def IsLedFunc (node : Node) (f : PatternFunc) : Prop :=
  f = ledPatternRecordSyncPulse ∨ ∃ pattern, patterns node pattern = some f

/-- The value that a configuration starts from. -/
def firstPwm (ae : AeConfig) : Option UInt8 :=
  ae.aeu.toList.head?.bind fun aeu => aeu.pwm.toList.head?

/-- A channel and its configuration can be given to the driver, and a function
that reads the colour fades from it. -/
structure Sound (f : PatternFunc) (startPwm : Nat → UInt8) (config : Nat × AeConfig) : Prop where
  channel : config.1 < 3
  numAeu : config.2.numAeu ≠ 0
  fits : AeFits config.2
  fades : f.pauses = true → firstPwm config.2 = some (startPwm config.1)

theorem sound_of_decide {f : PatternFunc} {startPwm : Nat → UInt8} {config : Nat × AeConfig}
    (h : decide (config.1 < 3 ∧ config.2.numAeu ≠ 0 ∧ AeFits config.2) = true)
    (hfades : f.pauses = true → firstPwm config.2 = some (startPwm config.1)) :
    Sound f startPwm config := by
  obtain ⟨hchannel, hnum, hfits⟩ := of_decide_eq_true h
  exact ⟨hchannel, hnum, hfits, hfades⟩

theorem forall_three {α : Type} {P : α → Prop} {x y z : α} (hx : P x) (hy : P y) (hz : P z) :
    ∀ a ∈ [x, y, z], P a := by
  simp [hx, hy, hz]

theorem ledPatternStartup_sound (node : Node) (startPwm : Nat → UInt8) :
    ∀ config ∈ (ledPatternStartup node).channels startPwm,
      Sound (ledPatternStartup node) startPwm config := by
  cases node with
  | audio =>
      intro config hconfig
      obtain rfl := List.mem_singleton.mp hconfig
      exact sound_of_decide rfl fun h => nomatch h
  | central =>
      intro config hconfig
      rcases List.mem_pair.mp hconfig with rfl | rfl
      · exact sound_of_decide rfl fun h => nomatch h
      · exact sound_of_decide rfl fun h => nomatch h

/-- Whatever the colour is, the driver takes every configuration of a pattern, and
a pattern that reads the colour starts from it. -/
theorem IsLedFunc.sound {node : Node} {f : PatternFunc} (hf : IsLedFunc node f)
    (startPwm : Nat → UInt8) : ∀ config ∈ f.channels startPwm, Sound f startPwm config := by
  rcases hf with rfl | ⟨pattern, hf⟩
  · exact forall_three (sound_of_decide rfl fun _ => rfl) (sound_of_decide rfl fun _ => rfl)
      (sound_of_decide rfl fun _ => rfl)
  cases pattern with
  | startup =>
      cases hf
      exact ledPatternStartup_sound node startPwm
  | _ =>
      cases node <;> cases hf <;>
        exact forall_three (sound_of_decide rfl fun _ => rfl) (sound_of_decide rfl fun _ => rfl)
          (sound_of_decide rfl fun _ => rfl)

theorem IsLedFunc.nodup {node : Node} {f : PatternFunc} (hf : IsLedFunc node f)
    (startPwm : Nat → UInt8) : ((f.channels startPwm).map Prod.fst).Nodup := by
  have hblue : [ledBlue].Nodup := by decide
  have hfades : [ledBlue, ledGreen, ledRed].Nodup := by decide
  have hidle : [ledRed, ledGreen, ledBlue].Nodup := by decide
  have hstartup : [ledRed, ledBlue].Nodup := by decide
  rcases hf with rfl | ⟨pattern, hf⟩
  · exact hfades
  cases node with
  | audio =>
      cases pattern <;> cases hf <;>
        first | exact hfades | exact hblue
  | central =>
      cases pattern <;> cases hf <;>
        first | exact hfades | exact hidle | exact hstartup

end ZeusLe.LedPattern
