import Mathlib.Data.List.Basic
import ZeusLe.Library.LittleEndian
import ZeusLe.Library.Run
import ZeusLe.InputCodec

/-!
The audio settings, `audio.c`: a setter changes the codec and saves the value
under a key of its channel; `audio_init` loads what was saved.
-/

namespace ZeusLe.AudioSettings

open ZeusLe.InputCodec
open ZeusLe.Library.LittleEndian
open ZeusLe.Library.Run

abbrev Key := List Char

/-- The settings subsystem. The store holds one value for a key; loading visits
its entries in an order of its own. The names of settings are read up to a
separator. -/
structure Settings where
  Store : Type
  blank : Store
  entries : Store → List (Key × List UInt8)
  saveOne : Store → Key → List UInt8 → Store
  nameSteq : Key → Key → Option (Option Key)
  nameNext : Key → Nat × Option Key
  entries_blank : entries blank = []
  nodup_entries : ∀ store, ((entries store).map Prod.fst).Nodup
  mem_saveOne : ∀ store key val entry,
    entry ∈ entries (saveOne store key val) ↔
      entry = (key, val) ∨ (entry ∈ entries store ∧ entry.1 ≠ key)
  nameSteq_separator : ∀ key next, '=' ∉ key → nameSteq (key ++ '/' :: next) key = some (some next)
  nameNext_separator : ∀ head next, '/' ∉ head → '=' ∉ head →
    nameNext (head ++ '/' :: next) = (head.length, some next)

def settingsNameSteq : Key → Key → Option (Option Key)
  | '/' :: next, [] => some (some next)
  | [], [] | '=' :: _, [] => some none
  | _ :: _, [] | [], _ :: _ => none
  | c :: name, k :: key => if c = k ∧ c ≠ '=' then settingsNameSteq name key else none

def settingsNameNext : Key → Nat × Option Key
  | [] | '=' :: _ => (0, none)
  | '/' :: next => (0, some next)
  | _ :: name => ((settingsNameNext name).1 + 1, (settingsNameNext name).2)

/-- A store that lists its newest entry first. -/
def listSettings : Settings where
  Store := { entries : List (Key × List UInt8) // (entries.map Prod.fst).Nodup }
  blank := ⟨[], List.nodup_nil⟩
  entries := Subtype.val
  saveOne store key val :=
    ⟨(key, val) :: store.val.filter fun entry => entry.1 ≠ key, by
      refine List.nodup_cons.mpr ⟨?_, store.property.sublist ?_⟩
      · simp
      · exact (List.filter_sublist).map Prod.fst⟩
  nameSteq := settingsNameSteq
  nameNext := settingsNameNext
  entries_blank := rfl
  nodup_entries := Subtype.property
  mem_saveOne := by
    intro store key val entry
    simp
  nameSteq_separator := by
    intro key next hend
    induction key with
    | nil => rfl
    | cons c key ih =>
        simp only [List.mem_cons, not_or] at hend
        rw [List.cons_append, settingsNameSteq, if_pos ⟨rfl, Ne.symm hend.1⟩]
        exact ih hend.2
  nameNext_separator := by
    intro head next hslash hend
    induction head with
    | nil => rfl
    | cons c head ih =>
        simp only [List.mem_cons, not_or] at hslash hend
        have hnext : settingsNameNext (c :: (head ++ '/' :: next)) =
            ((settingsNameNext (head ++ '/' :: next)).1 + 1,
              (settingsNameNext (head ++ '/' :: next)).2) :=
          settingsNameNext.eq_4 c _ (Ne.symm hend.1) (Ne.symm hslash.1)
        rw [List.cons_append, hnext, ih hslash.2 hend.2]
        rfl

/-- What the board and its operating system provide. -/
structure Board where
  linearRange : LinearRangeUtils
  settings : Settings
  channels : List ChannelConfig
  /-- The registers after `codec_initialize`. -/
  regs : RegAddr → UInt8

/-- The properties that have a setting. -/
inductive Setting where
  | analogGain
  | digitalGain
  | impedance
  deriving DecidableEq, Repr

def Setting.property : Setting → Property
  | .analogGain => .analogGain
  | .digitalGain => .digitalGain
  | .impedance => .impedance

def Setting.name : Setting → Key
  | .analogGain => ['a', '_', 'g', 'a', 'i', 'n']
  | .digitalGain => ['d', '_', 'g', 'a', 'i', 'n']
  | .impedance => ['i', 'm', 'p']

def audioChannelToString : AudioChannel → Option Key
  | .frontLeft => some ['l', 'e', 'f', 't']
  | .frontRight => some ['r', 'i', 'g', 'h', 't']
  | .other _ => none

def stringPartialMatch (str : Key) (strLen : Nat) (pattern : Key) : Bool :=
  pattern.length == strLen && str.take strLen == pattern

def audioChannelFromStringPrefix (str : Key) (strLen : Nat) : Option AudioChannel :=
  if stringPartialMatch str strLen ['l', 'e', 'f', 't'] then some .frontLeft
  else if stringPartialMatch str strLen ['r', 'i', 'g', 'h', 't'] then some .frontRight
  else none

def audioSubtree : Key := ['a', 'u', 'd', 'i', 'o']

def channelSubtree : Key := ['c', 'h']

/-- The key `audio/ch/%s/%s`. -/
def settingKey (channelStr setting : Key) : Key :=
  audioSubtree ++ '/' :: (channelSubtree ++ '/' :: (channelStr ++ '/' :: setting))

structure Audio (board : Board) where
  init : Bool
  codec : Codec
  store : board.settings.Store
  /-- The calls of setters that returned 0, newest first. -/
  log : List ((Setting × AudioChannel) × PropertyValue)

/-- The results of the access to the codec and of `settings_save_one`. -/
structure SetIo where
  codec : Int := 0
  save : Int := 0
  deriving DecidableEq, Repr

/-- The results of reading a stored value and of the access to the codec. -/
structure LoadIo where
  read : Int := 0
  codec : Int := 0
  deriving DecidableEq, Repr

section

variable (board : Board)

/-- A value that is not saved leaves the store. -/
def audioSettingsChannelSave (io : Int) (channel : AudioChannel) (setting : Key)
    (val : List UInt8) (store : board.settings.Store) : Int × board.settings.Store :=
  match audioChannelToString channel with
  | none => (-einval, store)
  | some channelStr =>
      let key := settingKey channelStr setting
      if key.length ≥ 32 then (-einval, store)
      else if io ≠ 0 then (io, store)
      else (0, board.settings.saveOne store key val)

/-- `read_cb` for a variable of four bytes. -/
def readCb (io : Int) (value : List UInt8) : Option PropertyValue :=
  if io ≠ 0 then none
  else match value with
    | b0 :: b1 :: b2 :: b3 :: _ => some ⟨getLe32 b0 b1 b2 b3⟩
    | _ => none

/-- A setting whose value is read is applied; what cannot be applied is left. -/
def loadSetting (io : LoadIo) (setting : Setting) (channel : AudioChannel) (value : List UInt8)
    (codec : Codec) : Codec :=
  match readCb io.read value with
  | none => codec
  | some val =>
      (codecSetProperty board.linearRange board.channels io.codec setting.property channel val
        codec).2

def audioSettingsLoadCb (io : LoadIo) (key : Option Key) (value : List UInt8) (codec : Codec) :
    Codec :=
  match key.bind fun key => board.settings.nameSteq key channelSubtree with
  | none | some none => codec
  | some (some channelStr) =>
      let (channelLen, next) := board.settings.nameNext channelStr
      match audioChannelFromStringPrefix channelStr channelLen, next with
      | none, _ => codec
      -- no key ends after the name of its channel
      | some _, none => codec
      | some channel, some next =>
          if next = Setting.analogGain.name then
            loadSetting board io .analogGain channel value codec
          else if next = Setting.digitalGain.name then
            loadSetting board io .digitalGain channel value codec
          else if next = Setting.impedance.name then
            loadSetting board io .impedance channel value codec
          else codec

/-- `settings_load_subtree_direct("audio", ...)` from the entry `k` on. -/
def loadEntries (io : Nat → LoadIo) : Nat → List (Key × List UInt8) → Codec → Codec
  | _, [], codec => codec
  | k, (name, value) :: entries, codec =>
      let codec := match board.settings.nameSteq name audioSubtree with
        | none => codec
        | some key => audioSettingsLoadCb board (io k) key value codec
      loadEntries io (k + 1) entries codec

/-- `audio_init` after a start, with the store that was there before. -/
def audioInit (io : Nat → LoadIo) (store : board.settings.Store)
    (log : List ((Setting × AudioChannel) × PropertyValue)) : Audio board where
  init := true
  codec := loadEntries board io 0 (board.settings.entries store) (codecInitial board.regs)
  store := store
  log := log

/-- The getters. -/
def audioGet (setting : Setting) (channel : AudioChannel) (s : Audio board) :
    Except Int PropertyValue :=
  if !s.init then .error (-einval)
  else codecGetProperty board.linearRange setting.property channel s.codec

def audioGetAnalogGain (channel : AudioChannel) (s : Audio board) : Except Int Int32 :=
  (audioGet board .analogGain channel s).map fun prop => prop.bits.toInt32

def audioGetDigitalGain (channel : AudioChannel) (s : Audio board) : Except Int Int32 :=
  (audioGet board .digitalGain channel s).map fun prop => prop.bits.toInt32

def audioGetImpedance (channel : AudioChannel) (s : Audio board) : Except Int UInt32 :=
  (audioGet board .impedance channel s).map PropertyValue.impedance

/-- The setters. -/
def audioSet (setting : Setting) (io : SetIo) (channel : AudioChannel) (val : PropertyValue)
    (s : Audio board) : Int × Audio board :=
  if !s.init then (-einval, s)
  else
    let (ret, codec) := codecSetProperty board.linearRange board.channels io.codec
      setting.property channel val s.codec
    let s := { s with codec := codec }
    if ret ≠ 0 then (ret, s)
    else if codecApplyProperties ≠ 0 then (codecApplyProperties, s)
    else
      let (ret, store) := audioSettingsChannelSave board io.save channel setting.name
        (putLe32 val.bits) s.store
      (ret, { s with store := store })

def audioSetAnalogGain (io : SetIo) (channel : AudioChannel) (gain : Int32) (s : Audio board) :
    Int × Audio board :=
  audioSet board .analogGain io channel ⟨gain.toUInt32⟩ s

def audioSetDigitalGain (io : SetIo) (channel : AudioChannel) (gain : Int32) (s : Audio board) :
    Int × Audio board :=
  audioSet board .digitalGain io channel ⟨gain.toUInt32⟩ s

def audioSetImpedance (io : SetIo) (channel : AudioChannel) (impedance : UInt32)
    (s : Audio board) : Int × Audio board :=
  audioSet board .impedance io channel ⟨impedance⟩ s

end

inductive Input where
  | setAnalogGain (io : SetIo) (channel : AudioChannel) (gain : Int32)
  | setDigitalGain (io : SetIo) (channel : AudioChannel) (gain : Int32)
  | setImpedance (io : SetIo) (channel : AudioChannel) (impedance : UInt32)
  | reboot (io : Nat → LoadIo)

section

variable (board : Board)

/-- A call of a setter that returns 0 is noted. -/
def noted (setting : Setting) (channel : AudioChannel) (val : PropertyValue)
    (result : Int × Audio board) : Audio board :=
  if result.1 = 0 then { result.2 with log := ((setting, channel), val) :: result.2.log }
  else result.2

def step (s : Audio board) : Input → Audio board
  | .setAnalogGain io channel gain =>
      noted board .analogGain channel ⟨gain.toUInt32⟩ (audioSetAnalogGain board io channel gain s)
  | .setDigitalGain io channel gain =>
      noted board .digitalGain channel ⟨gain.toUInt32⟩ (audioSetDigitalGain board io channel gain s)
  | .setImpedance io channel impedance =>
      noted board .impedance channel ⟨impedance⟩ (audioSetImpedance board io channel impedance s)
  | .reboot io => audioInit board io s.store s.log

/-- The first start, with a blank store. -/
def firstBoot : Audio board :=
  audioInit board (fun _ => {}) board.settings.blank []

/-- A start in which all accesses succeed. -/
def rebooted (s : Audio board) : Audio board :=
  audioInit board (fun _ => {}) s.store s.log

end

end ZeusLe.AudioSettings
