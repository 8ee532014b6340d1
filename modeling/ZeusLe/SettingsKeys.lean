import ZeusLe.AudioSettings

/-!
The keys of the audio settings, `audio_settings_load_cb`: what the callback does
with any name below the subtree, and where it reads through a null pointer.
-/

namespace ZeusLe.SettingsKeys

open ZeusLe.InputCodec
open ZeusLe.AudioSettings

/-- The end of a setting's name: nothing, or the character before its value. -/
def NameEnd (tail : Key) : Prop :=
  tail = [] ∨ ∃ value, tail = '=' :: value

/-- A component of a name. -/
def Component (head : Key) : Prop :=
  '/' ∉ head ∧ '=' ∉ head

/-- The functions of the settings subsystem that take a name apart. A null
pointer is `none`. -/
structure SettingsNames where
  nameSteq : Key → Key → Option (Option Key)
  nameNext : Key → Nat × Option Key
  nameSteq_next : ∀ name key next, Component key →
    (nameSteq name key = some (some next) ↔ name = key ++ '/' :: next)
  nameNext_next : ∀ name len next,
    nameNext name = (len, some next) ↔
      ∃ head, Component head ∧ head.length = len ∧ name = head ++ '/' :: next
  nameNext_end : ∀ name len,
    nameNext name = (len, none) ↔
      ∃ head tail, Component head ∧ NameEnd tail ∧ head.length = len ∧ name = head ++ tail

def sizeofValue : Int := 4

/-- The length of the stored value, what `read_cb` returns for a variable of four
bytes, and what it leaves in the variable. A value that is longer is read in part. -/
structure Read where
  len : Nat
  ret : Int
  val : PropertyValue
  ret_le_len : ret ≤ len
  ret_le_size : ret ≤ sizeofValue

/-- The results of the calls, and whether the log output reads a string through
a null pointer. -/
structure Surroundings where
  linearRange : LinearRangeUtils
  channels : List ChannelConfig
  read : Read
  codec : Int
  logReadsNull : Bool

section

variable (nameSteq : Key → Key → Option (Option Key)) (nameNext : Key → Nat × Option Key)
  (world : Surroundings)

/-- What the callback returns, the arguments of its call of `input_codec_set_property`,
and the codec afterwards. -/
structure Loaded where
  ret : Int
  call : Option (Property × AudioChannel × PropertyValue)
  codec : Codec

def ignored (codec : Codec) : Loaded :=
  ⟨0, none, codec⟩

/-- The setting is applied; an error of the codec is only logged. -/
def applied (setting : Setting) (channel : AudioChannel) (codec : Codec) : Loaded where
  ret := 0
  call := some (setting.property, channel, world.read.val)
  codec := (codecSetProperty world.linearRange world.channels world.codec setting.property channel
    world.read.val codec).2

def loadSetting (setting : Setting) (channel : AudioChannel) (codec : Codec) : Loaded :=
  if world.read.ret ≠ sizeofValue then ignored codec else applied world setting channel codec

/-- A warning about a name. -/
def logName (name : Option Key) (codec : Codec) : Option Loaded :=
  if name = none ∧ world.logReadsNull = true then none else some (ignored codec)

/-- Reading a name through a null pointer has no result. The length of the value is
an argument that is not looked at. -/
def audioSettingsLoadCb (key : Option Key) (codec : Codec) : Option Loaded :=
  match key.bind fun key => nameSteq key channelSubtree with
  | none => logName world key codec
  | some none => some (ignored codec)
  | some (some channelStr) =>
      let (channelLen, next) := nameNext channelStr
      match audioChannelFromStringPrefix channelStr channelLen with
      | none => logName world next codec
      | some channel =>
          match next with
          | none => none
          | some next =>
              if next = Setting.analogGain.name then
                some (loadSetting world .analogGain channel codec)
              else if next = Setting.digitalGain.name then
                some (loadSetting world .digitalGain channel codec)
              else if next = Setting.impedance.name then
                some (loadSetting world .impedance channel codec)
              else logName world key codec

end

/-- The key of a setting, as it is below the subtree. -/
def Names (key : Key) (setting : Setting) (channel : AudioChannel) : Prop :=
  ∃ str, audioChannelToString channel = some str ∧
    key = channelSubtree ++ '/' :: (str ++ '/' :: setting.name)

/-- The key ends behind the name of a channel. -/
def EndsAt (key head : Key) : Prop :=
  Component head ∧ ∃ tail, NameEnd tail ∧ key = channelSubtree ++ '/' :: (head ++ tail)

/-- The callback returns 0 and applies the one setting that the key names, if its
value has the right size and is read; otherwise it changes nothing. -/
def LoadSafe (names : SettingsNames) (world : Surroundings) (key : Key) (codec : Codec) : Prop :=
  ∃ result, audioSettingsLoadCb names.nameSteq names.nameNext world (some key) codec =
      some result ∧
    result.ret = 0 ∧
    ((∃ setting channel, Names key setting channel ∧ world.read.len = sizeofValue ∧
        world.read.ret = sizeofValue ∧ result = applied world setting channel codec) ∨
      ((∀ setting channel, Names key setting channel →
          world.read.len ≠ sizeofValue ∨ world.read.ret ≠ sizeofValue) ∧
        result.call = none ∧ result.codec = codec))

/-- The key ends behind a channel, or behind the name of none where the log
output reads through a null pointer. -/
def Cut (world : Surroundings) (key : Key) : Prop :=
  ∃ head, EndsAt key head ∧
    (world.logReadsNull = true ∨ ∃ channel, audioChannelToString channel = some head)

/-- The key names a setting, and four bytes of a longer value are read. -/
def Oversized (world : Surroundings) (key : Key) : Prop :=
  (∃ setting channel, Names key setting channel) ∧
    sizeofValue < world.read.len ∧ world.read.ret = sizeofValue

theorem component_channelSubtree : Component channelSubtree := by
  constructor <;> decide

theorem component_of_channel {channel : AudioChannel} {str : Key}
    (hstr : audioChannelToString channel = some str) : Component str := by
  cases channel with
  | frontLeft =>
      obtain rfl := Option.some.inj hstr
      constructor <;> decide
  | frontRight =>
      obtain rfl := Option.some.inj hstr
      constructor <;> decide
  | other channel => cases hstr

theorem audioChannelFromStringPrefix_iff (head tail : Key) (channel : AudioChannel) :
    audioChannelFromStringPrefix (head ++ tail) head.length = some channel ↔
      audioChannelToString channel = some head := by
  have hmatch (pattern : Key) :
      stringPartialMatch (head ++ tail) head.length pattern = true ↔ head = pattern := by
    simp only [stringPartialMatch, List.take_left', Bool.and_eq_true, beq_iff_eq]
    constructor
    · exact fun h => h.2
    · rintro rfl
      exact ⟨rfl, rfl⟩
  simp only [audioChannelFromStringPrefix, hmatch]
  constructor
  · intro hchannel
    split at hchannel
    · rename_i hleft
      obtain rfl := Option.some.inj hchannel
      rw [hleft]
      rfl
    · split at hchannel
      · rename_i hright
        obtain rfl := Option.some.inj hchannel
        rw [hright]
        rfl
      · cases hchannel
  · intro hstr
    cases channel with
    | frontLeft =>
        obtain rfl := Option.some.inj hstr
        rfl
    | frontRight =>
        obtain rfl := Option.some.inj hstr
        rfl
    | other channel => cases hstr

section

variable (names : SettingsNames)

include names

theorem component_inj {head next head' next' : Key} (hhead : Component head)
    (hhead' : Component head') (heq : head ++ '/' :: next = head' ++ '/' :: next') :
    head = head' ∧ next = next' := by
  have hnext := (names.nameNext_next _ head.length next).mpr ⟨head, hhead, rfl, rfl⟩
  have hnext' := (names.nameNext_next _ head'.length next').mpr ⟨head', hhead', rfl, rfl⟩
  rw [heq, hnext', Prod.mk.injEq, Option.some.injEq] at hnext
  exact ⟨(List.append_inj heq hnext.1.symm).1, hnext.2.symm⟩

theorem nameSteq_of_names {key : Key} {setting : Setting} {channel : AudioChannel}
    (hnames : Names key setting channel) :
    ∃ next, names.nameSteq key channelSubtree = some (some next) := by
  obtain ⟨str, -, hkey⟩ := hnames
  exact ⟨_, (names.nameSteq_next _ _ _ component_channelSubtree).mpr hkey⟩

theorem nameSteq_of_endsAt {key head : Key} (hends : EndsAt key head) :
    ∃ next, names.nameSteq key channelSubtree = some (some next) := by
  obtain ⟨-, tail, -, hkey⟩ := hends
  exact ⟨_, (names.nameSteq_next _ _ _ component_channelSubtree).mpr hkey⟩

theorem names_iff {head next : Key} (hhead : Component head) (setting : Setting)
    (channel : AudioChannel) :
    Names (channelSubtree ++ '/' :: (head ++ '/' :: next)) setting channel ↔
      audioChannelToString channel = some head ∧ next = setting.name := by
  constructor
  · rintro ⟨str, hstr, hkey⟩
    obtain ⟨-, hrest⟩ := component_inj names component_channelSubtree component_channelSubtree hkey
    obtain ⟨rfl, rfl⟩ := component_inj names hhead (component_of_channel hstr) hrest
    exact ⟨hstr, rfl⟩
  · rintro ⟨hstr, rfl⟩
    exact ⟨head, hstr, rfl⟩

theorem not_endsAt {head next : Key} (hhead : Component head) (other : Key) :
    ¬ EndsAt (channelSubtree ++ '/' :: (head ++ '/' :: next)) other := by
  rintro ⟨hother, tail, htail, hkey⟩
  obtain ⟨-, hrest⟩ := component_inj names component_channelSubtree component_channelSubtree hkey
  have hnext := (names.nameNext_next _ head.length next).mpr ⟨head, hhead, rfl, rfl⟩
  have hend := (names.nameNext_end _ other.length).mpr ⟨other, tail, hother, htail, rfl, hrest⟩
  rw [hnext, Prod.mk.injEq] at hend
  cases hend.2

theorem not_names {key head : Key} (hends : EndsAt key head) (setting : Setting)
    (channel : AudioChannel) : ¬ Names key setting channel := by
  rintro ⟨str, hstr, rfl⟩
  exact not_endsAt names (component_of_channel hstr) head hends

theorem endsAt_inj {key head head' : Key} (hends : EndsAt key head) (hends' : EndsAt key head') :
    head = head' := by
  obtain ⟨hhead, tail, htail, hkey⟩ := hends
  obtain ⟨hhead', tail', htail', hkey'⟩ := hends'
  obtain ⟨-, hrest⟩ := component_inj names component_channelSubtree component_channelSubtree
    (hkey.symm.trans hkey')
  have hend := (names.nameNext_end _ head.length).mpr ⟨head, tail, hhead, htail, rfl, rfl⟩
  have hend' := (names.nameNext_end _ head'.length).mpr ⟨head', tail', hhead', htail', rfl, rfl⟩
  rw [hrest, hend', Prod.mk.injEq] at hend
  exact (List.append_inj hrest hend.1.symm).1

end

section

variable (names : SettingsNames) (world : Surroundings)

theorem logName_some (name : Key) (codec : Codec) :
    logName world (some name) codec = some (ignored codec) := by
  rw [logName, if_neg fun h => nomatch h.1]

theorem loadSafe_of_ignored {key : Key} {codec : Codec}
    (hcb : audioSettingsLoadCb names.nameSteq names.nameNext world (some key) codec =
      some (ignored codec))
    (hnone : ∀ setting channel, ¬ Names key setting channel) :
    LoadSafe names world key codec :=
  ⟨ignored codec, hcb, rfl,
    Or.inr ⟨fun setting channel h => absurd h (hnone setting channel), rfl, rfl⟩⟩

theorem loadSafe_of_loaded_iff {key : Key} {codec : Codec} {setting : Setting}
    {channel : AudioChannel} (hnames : Names key setting channel)
    (hcb : audioSettingsLoadCb names.nameSteq names.nameNext world (some key) codec =
      some (loadSetting world setting channel codec)) :
    LoadSafe names world key codec ↔ ¬ Oversized world key := by
  rw [loadSetting] at hcb
  rcases Classical.em (world.read.ret = sizeofValue) with hread | hread
  · rw [if_neg (not_not.mpr hread)] at hcb
    have hlong : sizeofValue ≤ world.read.len := hread ▸ world.read.ret_le_len
    constructor
    · rintro ⟨result, hresult, -, ⟨-, -, -, hsize, -, -⟩ | ⟨-, hcall, -⟩⟩ ⟨-, hover, -⟩
      · omega
      · rw [hcb] at hresult
        rw [← Option.some.inj hresult] at hcall
        cases hcall
    · intro hover
      have hsize : (world.read.len : Int) = sizeofValue := by
        by_contra hne
        exact hover ⟨⟨setting, channel, hnames⟩, by omega, hread⟩
      exact ⟨_, hcb, rfl, Or.inl ⟨setting, channel, hnames, hsize, hread, rfl⟩⟩
  · rw [if_pos hread] at hcb
    refine iff_of_true ?_ fun hover => hread hover.2.2
    exact ⟨_, hcb, rfl, Or.inr ⟨fun _ _ _ => Or.inr hread, rfl, rfl⟩⟩

theorem loadSafe_of_unknown {key : Key}
    (hunknown : ∀ next, names.nameSteq key channelSubtree ≠ some (some next)) (codec : Codec) :
    LoadSafe names world key codec := by
  apply loadSafe_of_ignored
  · simp only [audioSettingsLoadCb, Option.bind_some]
    rcases hsteq : names.nameSteq key channelSubtree with _ | _ | next
    · exact logName_some world key codec
    · rfl
    · exact absurd hsteq (hunknown next)
  · intro setting channel hnames
    obtain ⟨next, hnext⟩ := nameSteq_of_names names hnames
    exact hunknown next hnext

theorem loadSafe_of_ignored_iff {key : Key} {codec : Codec}
    (hcb : audioSettingsLoadCb names.nameSteq names.nameNext world (some key) codec =
      some (ignored codec))
    (hnone : ∀ setting channel, ¬ Names key setting channel) :
    LoadSafe names world key codec ↔ ¬ Oversized world key :=
  iff_of_true (loadSafe_of_ignored names world hcb hnone)
    fun ⟨⟨setting, channel, hnames⟩, _⟩ => hnone setting channel hnames

theorem loadSafe_of_next_iff {head next : Key} (hhead : Component head) (codec : Codec) :
    LoadSafe names world (channelSubtree ++ '/' :: (head ++ '/' :: next)) codec ↔
      ¬ Oversized world (channelSubtree ++ '/' :: (head ++ '/' :: next)) := by
  have hsteq := (names.nameSteq_next _ _ (head ++ '/' :: next) component_channelSubtree).mpr rfl
  have hnext := (names.nameNext_next _ head.length next).mpr ⟨head, hhead, rfl, rfl⟩
  rcases hchannel : audioChannelFromStringPrefix (head ++ '/' :: next) head.length with _ | channel
  · apply loadSafe_of_ignored_iff
    · simp only [audioSettingsLoadCb, Option.bind_some, hsteq, hnext, hchannel]
      exact logName_some world next codec
    · intro setting channel hnames
      obtain ⟨hstr, -⟩ := (names_iff names hhead setting channel).mp hnames
      rw [(audioChannelFromStringPrefix_iff head ('/' :: next) channel).mpr hstr] at hchannel
      cases hchannel
  · have hstr := (audioChannelFromStringPrefix_iff head ('/' :: next) channel).mp hchannel
    have hcb : audioSettingsLoadCb names.nameSteq names.nameNext world
        (some (channelSubtree ++ '/' :: (head ++ '/' :: next))) codec =
          if next = Setting.analogGain.name then
            some (loadSetting world .analogGain channel codec)
          else if next = Setting.digitalGain.name then
            some (loadSetting world .digitalGain channel codec)
          else if next = Setting.impedance.name then
            some (loadSetting world .impedance channel codec)
          else logName world (some (channelSubtree ++ '/' :: (head ++ '/' :: next))) codec := by
      simp only [audioSettingsLoadCb, Option.bind_some, hsteq, hnext, hchannel]
    have hnames (setting : Setting) (hname : next = setting.name) :=
      (names_iff names hhead setting channel).mpr ⟨hstr, hname⟩
    rcases Classical.em (next = Setting.analogGain.name) with hanalog | hanalog
    · rw [if_pos hanalog] at hcb
      exact loadSafe_of_loaded_iff names world (hnames _ hanalog) hcb
    · rw [if_neg hanalog] at hcb
      rcases Classical.em (next = Setting.digitalGain.name) with hdigital | hdigital
      · rw [if_pos hdigital] at hcb
        exact loadSafe_of_loaded_iff names world (hnames _ hdigital) hcb
      · rw [if_neg hdigital] at hcb
        rcases Classical.em (next = Setting.impedance.name) with himpedance | himpedance
        · rw [if_pos himpedance] at hcb
          exact loadSafe_of_loaded_iff names world (hnames _ himpedance) hcb
        · rw [if_neg himpedance, logName_some] at hcb
          apply loadSafe_of_ignored_iff names world hcb
          intro setting other hother
          obtain ⟨-, hname⟩ := (names_iff names hhead setting other).mp hother
          cases setting with
          | analogGain => exact hanalog hname
          | digitalGain => exact hdigital hname
          | impedance => exact himpedance hname

/-- A key that ends behind one more component ends in a null pointer, which is
compared with the settings of a channel and logged otherwise. -/
theorem loadSafe_of_end_iff {key head : Key} (hends : EndsAt key head) (codec : Codec) :
    LoadSafe names world key codec ↔ ¬ Cut world key := by
  have hcut : Cut world key ↔
      world.logReadsNull = true ∨ ∃ channel, audioChannelToString channel = some head := by
    constructor
    · rintro ⟨other, hother, hreads⟩
      rwa [endsAt_inj names hends hother]
    · exact fun hreads => ⟨head, hends, hreads⟩
  have hnone := not_names names hends
  obtain ⟨hhead, tail, htail, rfl⟩ := hends
  have hsteq := (names.nameSteq_next _ _ (head ++ tail) component_channelSubtree).mpr rfl
  have hend := (names.nameNext_end _ head.length).mpr ⟨head, tail, hhead, htail, rfl, rfl⟩
  rw [hcut]
  rcases hchannel : audioChannelFromStringPrefix (head ++ tail) head.length with _ | channel
  · have hcb : audioSettingsLoadCb names.nameSteq names.nameNext world
        (some (channelSubtree ++ '/' :: (head ++ tail))) codec = logName world none codec := by
      simp only [audioSettingsLoadCb, Option.bind_some, hsteq, hend, hchannel]
    have hunknown : ¬ ∃ channel, audioChannelToString channel = some head := by
      rintro ⟨channel, hstr⟩
      rw [(audioChannelFromStringPrefix_iff head tail channel).mpr hstr] at hchannel
      cases hchannel
    rcases Classical.em (world.logReadsNull = true) with hlog | hlog
    · refine iff_of_false ?_ (not_not.mpr (Or.inl hlog))
      rintro ⟨result, hresult, -⟩
      rw [hcb, logName, if_pos ⟨rfl, hlog⟩] at hresult
      cases hresult
    · refine iff_of_true ?_ (not_or.mpr ⟨hlog, hunknown⟩)
      rw [logName, if_neg fun h => hlog h.2] at hcb
      exact loadSafe_of_ignored names world hcb hnone
  · have hstr := (audioChannelFromStringPrefix_iff head tail channel).mp hchannel
    refine iff_of_false ?_ (not_not.mpr (Or.inr ⟨channel, hstr⟩))
    rintro ⟨result, hresult, -⟩
    simp only [audioSettingsLoadCb, Option.bind_some, hsteq, hend, hchannel] at hresult
    cases hresult

/-- A key of the shell is safe unless it ends behind its channel, or names a setting
whose value is longer than that. -/
theorem loadSafe_iff (key : Key) (codec : Codec) :
    LoadSafe names world key codec ↔ ¬ Cut world key ∧ ¬ Oversized world key := by
  rcases Classical.em (∃ rest, names.nameSteq key channelSubtree = some (some rest)) with
    ⟨rest, hsteq⟩ | hunknown
  · obtain rfl := (names.nameSteq_next _ _ _ component_channelSubtree).mp hsteq
    rcases hnext : names.nameNext rest with ⟨len, _ | next⟩
    · obtain ⟨head, tail, hhead, htail, -, rfl⟩ := (names.nameNext_end _ _).mp hnext
      have hends : EndsAt (channelSubtree ++ '/' :: (head ++ tail)) head :=
        ⟨hhead, tail, htail, rfl⟩
      rw [loadSafe_of_end_iff names world hends codec, iff_self_and]
      rintro - ⟨⟨setting, channel, hnames⟩, -⟩
      exact not_names names hends setting channel hnames
    · obtain ⟨head, hhead, -, rfl⟩ := (names.nameNext_next _ _ _).mp hnext
      rw [loadSafe_of_next_iff names world hhead codec, iff_and_self]
      rintro - ⟨other, hends, -⟩
      exact not_endsAt names hhead other hends
  · refine iff_of_true
      (loadSafe_of_unknown names world (fun next h => hunknown ⟨next, h⟩) codec) ⟨?_, ?_⟩
    · rintro ⟨head, hends, -⟩
      exact hunknown (nameSteq_of_endsAt names hends)
    · rintro ⟨⟨setting, channel, hnames⟩, -⟩
      exact hunknown (nameSteq_of_names names hnames)

end

/-- A stored value that is read, or is too short or cannot be read. -/
def readRet (io : Int) (value : List UInt8) : Int :=
  if (readCb io value).isSome then sizeofValue else 0

theorem readRet_le_len (io : Int) (value : List UInt8) : readRet io value ≤ value.length := by
  rw [readRet]
  split
  · rename_i hread
    match value, hread with
    | _ :: _ :: _ :: _ :: value, _ =>
        simp only [sizeofValue, List.length_cons]
        omega
    | [], hread | [_], hread | [_, _], hread | [_, _, _], hread => simp [readCb] at hread
  · exact Int.natCast_nonneg _

theorem readRet_le_size (io : Int) (value : List UInt8) : readRet io value ≤ sizeofValue := by
  rw [readRet]
  split <;> decide

/-- A stored value of a board, read and applied. -/
def boardWorld (board : Board) (io : LoadIo) (value : List UInt8) (logReadsNull : Bool) :
    Surroundings where
  linearRange := board.linearRange
  channels := board.channels
  read :=
    { len := value.length
      ret := readRet io.read value
      val := (readCb io.read value).getD ⟨0⟩
      ret_le_len := readRet_le_len io.read value
      ret_le_size := readRet_le_size io.read value }
  codec := io.codec
  logReadsNull := logReadsNull

theorem loadSetting_boardWorld (board : Board) (io : LoadIo) (value : List UInt8)
    (logReadsNull : Bool) (setting : Setting) (channel : AudioChannel) (codec : Codec) :
    (loadSetting (boardWorld board io value logReadsNull) setting channel codec).ret = 0 ∧
      (loadSetting (boardWorld board io value logReadsNull) setting channel codec).codec =
        AudioSettings.loadSetting board io setting channel value codec := by
  rcases hread : readCb io.read value with _ | val
  · have hret : (boardWorld board io value logReadsNull).read.ret = 0 := by
      simp only [boardWorld, readRet, hread, Option.isSome_none, Bool.false_eq_true, if_false]
    rw [loadSetting, AudioSettings.loadSetting, hret, hread, if_pos (by decide)]
    exact ⟨rfl, rfl⟩
  · have hret : (boardWorld board io value logReadsNull).read.ret = sizeofValue := by
      simp only [boardWorld, readRet, hread, Option.isSome_some, if_true]
    have hval : (boardWorld board io value logReadsNull).read.val = val := by
      simp only [boardWorld, hread, Option.getD_some]
    rw [loadSetting, AudioSettings.loadSetting, hret, hread, if_neg (not_not.mpr rfl), applied,
      hval]
    exact ⟨rfl, rfl⟩

theorem logName_result {world : Surroundings} {name : Option Key} {codec : Codec}
    {result : Loaded} (hlog : logName world name codec = some result) :
    result = ignored codec := by
  rw [logName] at hlog
  split at hlog
  · cases hlog
  · exact (Option.some.inj hlog).symm

theorem audioSettingsLoadCb_agrees (board : Board) (io : LoadIo) (key : Option Key)
    (value : List UInt8) (logReadsNull : Bool) (codec : Codec) {result : Loaded}
    (hresult : audioSettingsLoadCb board.settings.nameSteq board.settings.nameNext
      (boardWorld board io value logReadsNull) key codec = some result) :
    result.ret = 0 ∧ result.codec = AudioSettings.audioSettingsLoadCb board io key value codec := by
  have hignored (name : Option Key)
      (hlog : logName (boardWorld board io value logReadsNull) name codec = some result) :
      result.ret = 0 ∧ result.codec = codec := by
    rw [logName_result hlog]
    exact ⟨rfl, rfl⟩
  have hloaded (setting : Setting) (channel : AudioChannel)
      (hload : some (loadSetting (boardWorld board io value logReadsNull) setting channel codec) =
        some result) :
      result.ret = 0 ∧
        result.codec = AudioSettings.loadSetting board io setting channel value codec := by
    rw [← Option.some.inj hload]
    exact loadSetting_boardWorld board io value logReadsNull setting channel codec
  simp only [audioSettingsLoadCb] at hresult
  simp only [AudioSettings.audioSettingsLoadCb]
  rcases hsteq : (key.bind fun key => board.settings.nameSteq key channelSubtree) with
    _ | _ | channelStr
  · rw [hsteq] at hresult
    exact hignored key hresult
  · rw [hsteq] at hresult
    rw [← Option.some.inj hresult]
    exact ⟨rfl, rfl⟩
  · rw [hsteq] at hresult
    simp only at hresult ⊢
    rcases hchannel : audioChannelFromStringPrefix channelStr
      (board.settings.nameNext channelStr).1 with _ | channel
    · rw [hchannel] at hresult
      exact hignored _ hresult
    · rw [hchannel] at hresult
      rcases hnext : (board.settings.nameNext channelStr).2 with _ | next
      · rw [hnext] at hresult
        cases hresult
      · rw [hnext] at hresult
        simp only at hresult ⊢
        rcases Classical.em (next = Setting.analogGain.name) with hanalog | hanalog
        · rw [if_pos hanalog] at hresult ⊢
          exact hloaded _ channel hresult
        · rw [if_neg hanalog] at hresult ⊢
          rcases Classical.em (next = Setting.digitalGain.name) with hdigital | hdigital
          · rw [if_pos hdigital] at hresult ⊢
            exact hloaded _ channel hresult
          · rw [if_neg hdigital] at hresult ⊢
            rcases Classical.em (next = Setting.impedance.name) with himpedance | himpedance
            · rw [if_pos himpedance] at hresult ⊢
              exact hloaded _ channel hresult
            · rw [if_neg himpedance] at hresult ⊢
              exact hignored key hresult

theorem settingsNameNext_cons {c : Char} (hslash : c ≠ '/') (hend : c ≠ '=') (name : Key) :
    settingsNameNext (c :: name) =
      ((settingsNameNext name).1 + 1, (settingsNameNext name).2) :=
  settingsNameNext.eq_4 c name hend hslash

theorem component_cons {c : Char} {head : Key} :
    Component (c :: head) ↔ (c ≠ '/' ∧ c ≠ '=') ∧ Component head := by
  simp only [Component, List.mem_cons, not_or, ne_eq, eq_comm]
  constructor
  · rintro ⟨⟨hslash, hhead⟩, hend, hhead'⟩
    exact ⟨⟨hslash, hend⟩, hhead, hhead'⟩
  · rintro ⟨⟨hslash, hend⟩, hhead, hhead'⟩
    exact ⟨⟨hslash, hhead⟩, hend, hhead'⟩

theorem settingsNameSteq_next (name key next : Key) (hkey : Component key) :
    settingsNameSteq name key = some (some next) ↔ name = key ++ '/' :: next := by
  induction key generalizing name with
  | nil =>
      simp only [List.nil_append]
      constructor
      · intro hsteq
        unfold settingsNameSteq at hsteq
        split at hsteq <;> simp_all
      · rintro rfl
        rfl
  | cons k key ih =>
      obtain ⟨⟨-, hend⟩, hrest⟩ := component_cons.mp hkey
      cases name with
      | nil => simp [settingsNameSteq]
      | cons c name =>
          simp only [settingsNameSteq, List.cons_append, List.cons.injEq]
          rcases Classical.em (c = k) with rfl | hne
          · rw [if_pos ⟨rfl, hend⟩, ih name hrest, and_iff_right rfl]
          · rw [if_neg fun h => hne h.1]
            refine iff_of_false ?_ fun h => hne h.1
            intro hsteq
            cases hsteq

theorem settingsNameNext_spec (name : Key) :
    ∃ head, Component head ∧ head.length = (settingsNameNext name).1 ∧
      ((∃ next, (settingsNameNext name).2 = some next ∧ name = head ++ '/' :: next) ∨
        ((settingsNameNext name).2 = none ∧ ∃ tail, NameEnd tail ∧ name = head ++ tail)) := by
  induction name with
  | nil => exact ⟨[], by constructor <;> simp, rfl, Or.inr ⟨rfl, [], Or.inl rfl, rfl⟩⟩
  | cons c name ih =>
      rcases Classical.em (c = '/') with rfl | hslash
      · exact ⟨[], by constructor <;> simp, rfl, Or.inl ⟨name, rfl, rfl⟩⟩
      · rcases Classical.em (c = '=') with rfl | hend
        · exact ⟨[], by constructor <;> simp, rfl, Or.inr ⟨rfl, _, Or.inr ⟨name, rfl⟩, rfl⟩⟩
        · obtain ⟨head, hhead, hlen, hrest⟩ := ih
          rw [settingsNameNext_cons hslash hend]
          refine ⟨c :: head, component_cons.mpr ⟨⟨hslash, hend⟩, hhead⟩, by simp [hlen], ?_⟩
          rcases hrest with ⟨next, hnext, rfl⟩ | ⟨hnone, tail, htail, rfl⟩
          · exact Or.inl ⟨next, hnext, rfl⟩
          · exact Or.inr ⟨hnone, tail, htail, rfl⟩

theorem settingsNameNext_of_next {head : Key} (hhead : Component head) (next : Key) :
    settingsNameNext (head ++ '/' :: next) = (head.length, some next) := by
  induction head with
  | nil => rfl
  | cons c head ih =>
      obtain ⟨⟨hslash, hend⟩, hrest⟩ := component_cons.mp hhead
      rw [List.cons_append, settingsNameNext_cons hslash hend, ih hrest, List.length_cons]

theorem settingsNameNext_of_end {head tail : Key} (hhead : Component head) (htail : NameEnd tail) :
    settingsNameNext (head ++ tail) = (head.length, none) := by
  induction head with
  | nil => rcases htail with rfl | ⟨value, rfl⟩ <;> rfl
  | cons c head ih =>
      obtain ⟨⟨hslash, hend⟩, hrest⟩ := component_cons.mp hhead
      rw [List.cons_append, settingsNameNext_cons hslash hend, ih hrest, List.length_cons]

def settingsNames : SettingsNames where
  nameSteq := settingsNameSteq
  nameNext := settingsNameNext
  nameSteq_next := settingsNameSteq_next
  nameNext_next := by
    intro name len next
    constructor
    · intro hname
      obtain ⟨head, hhead, hlen, hcases⟩ := settingsNameNext_spec name
      rw [hname] at hlen hcases
      rcases hcases with ⟨next', hnext, hkey⟩ | ⟨hnone, -⟩
      · obtain rfl := Option.some.inj hnext
        exact ⟨head, hhead, hlen, hkey⟩
      · cases hnone
    · rintro ⟨head, hhead, rfl, rfl⟩
      exact settingsNameNext_of_next hhead next
  nameNext_end := by
    intro name len
    constructor
    · intro hname
      obtain ⟨head, hhead, hlen, hcases⟩ := settingsNameNext_spec name
      rw [hname] at hlen hcases
      rcases hcases with ⟨next, hnext, -⟩ | ⟨-, tail, htail, hkey⟩
      · cases hnext
      · exact ⟨head, tail, hhead, htail, hlen, hkey⟩
    · rintro ⟨head, tail, hhead, htail, rfl, rfl⟩
      exact settingsNameNext_of_end hhead htail

/-- The key `ch/left` is read through a null pointer. -/
theorem ch_left_unsafe :
    ¬ LoadSafe settingsNames
      ⟨linearRangeUtils, [], ⟨4, sizeofValue, ⟨0⟩, by decide, by decide⟩, 0, false⟩
      ['c', 'h', '/', 'l', 'e', 'f', 't'] (codecInitial fun _ => 0) := by
  rintro ⟨result, hresult, -⟩
  cases hresult

end ZeusLe.SettingsKeys
