import ZeusLe.AudioSettings

/-! The audio settings survive a reboot and do not affect each other. -/

namespace ZeusLe.SettingsPersistence

open ZeusLe.InputCodec
open ZeusLe.AudioSettings
open ZeusLe.Library.LittleEndian
open ZeusLe.Library.Run

theorem codecChannelToIndex_of_string {channel : AudioChannel} {str : Key}
    (hstr : audioChannelToString channel = some str) :
    ∃ index, codecChannelToIndex channel = .ok index ∧ Analog index := by
  cases channel with
  | frontLeft => exact ⟨1, rfl, by decide, by decide⟩
  | frontRight => exact ⟨2, rfl, by decide, by decide⟩
  | other channel => cases hstr

theorem codecChannelToIndex_analog {channel : AudioChannel} {index : Nat}
    (h : codecChannelToIndex channel = .ok index) :
    Analog index ∧ ∃ str, audioChannelToString channel = some str := by
  cases channel with
  | frontLeft =>
      obtain rfl : 1 = index := Except.ok.inj h
      exact ⟨⟨by decide, by decide⟩, _, rfl⟩
  | frontRight =>
      obtain rfl : 2 = index := Except.ok.inj h
      exact ⟨⟨by decide, by decide⟩, _, rfl⟩
  | other channel => cases h

section

variable (linearRange : LinearRangeUtils) (config : List ChannelConfig)

/-- The codec has a value of its own for the property. -/
def Accepts (setting : Setting) (val : PropertyValue) : Prop :=
  match setting with
  | .analogGain => ∃ idx, linearRange.getIndex analogGainRange val.gain = .ok idx
  | .digitalGain => ∃ idx, linearRange.getIndex digitalGainRange val.gain = .ok idx
  | .impedance => ∃ imp, impedanceIndex val.impedance = some imp

theorem codecSetProperty_accepts {io : Int} {setting : Setting} {channel : AudioChannel}
    {val : PropertyValue} {codec : Codec}
    (h : (codecSetProperty linearRange config io setting.property channel val codec).1 = 0) :
    (∃ str, audioChannelToString channel = some str) ∧ Accepts linearRange setting val := by
  simp only [codecSetProperty] at h
  rcases hchannel : codecChannelToIndex channel with ret | index
  · simp only [hchannel] at h
    cases channel <;> simp only [codecChannelToIndex, reduceCtorEq, Except.error.injEq] at hchannel
    exact absurd (hchannel.trans h) (by decide)
  · obtain ⟨hanalog, hstr⟩ := codecChannelToIndex_analog hchannel
    refine ⟨hstr, ?_⟩
    simp only [hchannel] at h
    cases setting with
    | analogGain =>
        rcases hidx : linearRange.getIndex analogGainRange val.gain with ret | idx
        · simp only [Setting.property, codecSetAnalogGain_error linearRange hanalog hidx] at h
          exact absurd h (linearRange.getIndex_error _ _ _ hidx)
        · exact ⟨idx, hidx⟩
    | digitalGain =>
        rcases hidx : linearRange.getIndex digitalGainRange val.gain with ret | idx
        · simp only [Setting.property, codecSetDigitalGain_error linearRange hanalog hidx] at h
          exact absurd h (linearRange.getIndex_error _ _ _ hidx)
        · exact ⟨idx, hidx⟩
    | impedance =>
        rcases himp : impedanceIndex val.impedance with _ | imp
        · simp only [Setting.property, codecSetImpedance_error config hanalog himp] at h
          exact absurd h (by decide)
        · exact ⟨imp, himp⟩

theorem codecGetProperty_set {setting : Setting} {channel : AudioChannel} {val : PropertyValue}
    {str : Key} (hstr : audioChannelToString channel = some str)
    (haccepts : Accepts linearRange setting val) (codec : Codec) :
    codecGetProperty linearRange setting.property channel
      (codecSetProperty linearRange config 0 setting.property channel val codec).2 = .ok val := by
  obtain ⟨index, hindex, hanalog⟩ := codecChannelToIndex_of_string hstr
  simp only [codecGetProperty, codecSetProperty, hindex]
  cases setting with
  | analogGain =>
      obtain ⟨idx, hidx⟩ := haccepts
      simp only [Setting.property, codecGetAnalogGain_set linearRange hanalog hidx]
      exact congrArg Except.ok val.ofGain_gain
  | digitalGain =>
      obtain ⟨idx, hidx⟩ := haccepts
      simp only [Setting.property, codecGetDigitalGain_set linearRange hanalog hidx]
      exact congrArg Except.ok val.ofGain_gain
  | impedance =>
      obtain ⟨imp, himp⟩ := haccepts
      simp only [Setting.property, codecGetImpedance_set config hanalog himp]
      rfl

/-- The register to which a setter writes. -/
def settingAddr : Setting → Nat → RegAddr
  | .analogGain => chCfg1Addr
  | .digitalGain => chCfg2Addr
  | .impedance => chCfg0Addr

structure OnlyWrites (setting : Setting) (index : Nat) (s t : Codec) : Prop where
  regs : ∀ reg, reg ≠ settingAddr setting index → t.regs reg = s.regs reg
  channels : ∀ other, setting ≠ .digitalGain ∨ other ≠ index - 1 →
    t.channels other = s.channels other

theorem onlyWrites_refl (setting : Setting) (index : Nat) (s : Codec) :
    OnlyWrites setting index s s :=
  ⟨fun _ _ => rfl, fun _ _ => rfl⟩

theorem codecSetProperty_onlyWrites (io : Int) (setting : Setting) {channel : AudioChannel}
    {index : Nat} (hindex : codecChannelToIndex channel = .ok index) (val : PropertyValue)
    (codec : Codec) :
    OnlyWrites setting index codec
      (codecSetProperty linearRange config io setting.property channel val codec).2 := by
  obtain ⟨hanalog, -⟩ := codecChannelToIndex_analog hindex
  simp only [codecSetProperty, hindex]
  cases setting with
  | analogGain =>
      rcases hidx : linearRange.getIndex analogGainRange val.gain with ret | idx
      · simp only [Setting.property, codecSetAnalogGain_error linearRange hanalog hidx]
        exact onlyWrites_refl _ _ _
      · simp only [Setting.property, codecSetAnalogGain_eq linearRange hanalog hidx]
        obtain ⟨hchannels, hregs⟩ :=
          codecWriteReg_spec io (chCfg1Addr index) (chCfg1Gain.prep idx) codec
        exact ⟨hregs, fun _ _ => by rw [hchannels]⟩
  | digitalGain =>
      rcases hidx : linearRange.getIndex digitalGainRange val.gain with ret | idx
      · simp only [Setting.property, codecSetDigitalGain_error linearRange hanalog hidx]
        exact onlyWrites_refl _ _ _
      · obtain ⟨-, hchannels, hregs⟩ := codecSetDigitalGain_spec linearRange hanalog hidx io codec
        refine ⟨hregs, ?_⟩
        intro other hother
        exact hchannels other (hother.resolve_left fun h => h rfl)
  | impedance =>
      rcases himp : impedanceIndex val.impedance with _ | imp
      · simp only [Setting.property, codecSetImpedance_error config hanalog himp]
        exact onlyWrites_refl _ _ _
      · obtain ⟨lineIn, dcCoupled, hset⟩ := codecSetImpedance_eq config hanalog himp io codec
        simp only [Setting.property, hset]
        obtain ⟨hchannels, hregs⟩ := codecWriteReg_spec io (chCfg0Addr index) _ codec
        exact ⟨hregs, fun _ _ => by rw [hchannels]⟩

theorem settingAddr_injective {first second : Setting} {i j : Nat} (hi : Analog i) (hj : Analog j)
    (h : settingAddr first i = settingAddr second j) : first = second ∧ i = j := by
  simp only [Analog, codecNumAnalogChannels] at hi hj
  cases first <;> cases second <;>
    simp only [settingAddr, chCfg0Addr, chCfg1Addr, chCfg2Addr, RegAddr.mk.injEq, true_and,
      reduceCtorEq, false_and] at h ⊢ <;> omega

theorem codecGetProperty_congr {setting other : Setting} {channel target : AudioChannel}
    {index : Nat} (hindex : codecChannelToIndex channel = .ok index)
    (hne : (other, target) ≠ (setting, channel)) {s t : Codec}
    (hwrites : OnlyWrites setting index s t) :
    codecGetProperty linearRange other.property target t =
      codecGetProperty linearRange other.property target s := by
  obtain ⟨hanalog, -⟩ := codecChannelToIndex_analog hindex
  simp only [codecGetProperty]
  rcases htarget : codecChannelToIndex target with ret | j
  · rfl
  · obtain ⟨hj, -⟩ := codecChannelToIndex_analog htarget
    have hdistinct : ¬ (other = setting ∧ j = index) := by
      rintro ⟨rfl, rfl⟩
      exact hne (by rw [codecChannelToIndex_injective htarget hindex])
    have hreg : t.regs (settingAddr other j) = s.regs (settingAddr other j) :=
      hwrites.regs _ fun h => hdistinct (settingAddr_injective hj hanalog h)
    cases other with
    | analogGain =>
        simp only [settingAddr] at hreg
        simp only [Setting.property, codecGetAnalogGain, hreg]
    | digitalGain =>
        have hchannel : t.channels (j - 1) = s.channels (j - 1) := by
          apply hwrites.channels
          rcases Decidable.em (setting = .digitalGain) with rfl | hsetting
          · right
            intro h
            have hlow := hanalog.1
            have hlow' := hj.1
            exact hdistinct ⟨rfl, by omega⟩
          · exact Or.inl hsetting
        simp only [Setting.property, codecGetDigitalGain, hchannel]
    | impedance =>
        simp only [settingAddr] at hreg
        simp only [Setting.property, codecGetImpedance, hreg]

theorem codecGetProperty_set_of_ne {setting other : Setting} {channel target : AudioChannel}
    (hne : (other, target) ≠ (setting, channel)) (io : Int) (val : PropertyValue) (codec : Codec) :
    codecGetProperty linearRange other.property target
        (codecSetProperty linearRange config io setting.property channel val codec).2 =
      codecGetProperty linearRange other.property target codec := by
  rcases hindex : codecChannelToIndex channel with ret | index
  · simp only [codecSetProperty, hindex]
  · exact codecGetProperty_congr linearRange hindex hne
      (codecSetProperty_onlyWrites linearRange config io setting hindex val codec)

end

theorem audioChannelFromString_toString {channel : AudioChannel} {str : Key}
    (hstr : audioChannelToString channel = some str) (next : Key) :
    audioChannelFromStringPrefix (str ++ '/' :: next) str.length = some channel := by
  cases channel with
  | frontLeft =>
      obtain rfl := Option.some.inj hstr
      rfl
  | frontRight =>
      obtain rfl := Option.some.inj hstr
      rfl
  | other channel => cases hstr

theorem audioChannelToString_plain {channel : AudioChannel} {str : Key}
    (hstr : audioChannelToString channel = some str) : '/' ∉ str ∧ '=' ∉ str ∧ str.length ≤ 5 := by
  cases channel with
  | frontLeft =>
      obtain rfl := Option.some.inj hstr
      decide
  | frontRight =>
      obtain rfl := Option.some.inj hstr
      decide
  | other channel => cases hstr

theorem settingKey_injective {first second : Setting} {channel target : AudioChannel}
    {str str' : Key} (hstr : audioChannelToString channel = some str)
    (hstr' : audioChannelToString target = some str')
    (h : settingKey str first.name = settingKey str' second.name) :
    first = second ∧ channel = target := by
  cases channel <;> cases target <;>
    simp only [audioChannelToString, Option.some.injEq, reduceCtorEq] at hstr hstr' <;>
    subst hstr hstr' <;> cases first <;> cases second <;> revert h <;> decide

theorem settingKey_length {setting : Setting} {channel : AudioChannel} {str : Key}
    (hstr : audioChannelToString channel = some str) : ¬ (settingKey str setting.name).length ≥ 32 := by
  obtain ⟨-, -, hlen⟩ := audioChannelToString_plain hstr
  have hname : setting.name.length ≤ 6 := by cases setting <;> decide
  simp only [settingKey, audioSubtree, channelSubtree, List.length_append, List.length_cons,
    List.length_nil]
  omega

theorem readCb_putLe32 (val : PropertyValue) : readCb 0 (putLe32 val.bits) = some val := by
  simp only [readCb, putLe32, ne_eq, not_true_eq_false, if_false, getLe32_putLe32]

section

variable (board : Board)

theorem loadEntry_settingKey {setting : Setting} {channel : AudioChannel} {str : Key}
    (hstr : audioChannelToString channel = some str) (io : Nat → LoadIo) (k : Nat)
    (value : List UInt8) (entries : List (Key × List UInt8)) (codec : Codec) :
    loadEntries board io k ((settingKey str setting.name, value) :: entries) codec =
      loadEntries board io (k + 1) entries
        (loadSetting board (io k) setting channel value codec) := by
  obtain ⟨hslash, hend, -⟩ := audioChannelToString_plain hstr
  have hsubtree := board.settings.nameSteq_separator audioSubtree
    (channelSubtree ++ '/' :: (str ++ '/' :: setting.name)) (by decide)
  have hchannels := board.settings.nameSteq_separator channelSubtree (str ++ '/' :: setting.name)
    (by decide)
  have hnext := board.settings.nameNext_separator str setting.name hslash hend
  have hchannel := audioChannelFromString_toString hstr setting.name
  rw [loadEntries, settingKey, hsubtree]
  simp only [audioSettingsLoadCb, Option.bind_some, hchannels, hnext, hchannel]
  cases setting with
  | analogGain => rw [if_pos rfl]
  | digitalGain => rw [if_neg (by decide), if_pos rfl]
  | impedance => rw [if_neg (by decide), if_neg (by decide), if_pos rfl]

/-- An entry that a setter has saved. -/
def SavedBy (setting : Setting) (channel : AudioChannel) (val : PropertyValue)
    (entry : Key × List UInt8) : Prop :=
  ∃ str, audioChannelToString channel = some str ∧
    entry = (settingKey str setting.name, putLe32 val.bits)

/-- All entries were saved by setters, with values that the codec accepts. -/
def AllSaved (entries : List (Key × List UInt8)) : Prop :=
  ∀ entry ∈ entries, ∃ setting channel val,
    SavedBy setting channel val entry ∧ Accepts board.linearRange setting val

theorem loadEntries_get_of_forall_ne {setting : Setting} {channel : AudioChannel} (k : Nat)
    (entries : List (Key × List UInt8)) (hall : AllSaved board entries)
    (hne : ∀ entry ∈ entries, ∀ val, ¬ SavedBy setting channel val entry) (codec : Codec) :
    codecGetProperty board.linearRange setting.property channel
        (loadEntries board (fun _ => {}) k entries codec) =
      codecGetProperty board.linearRange setting.property channel codec := by
  induction entries generalizing k codec with
  | nil => rfl
  | cons entry entries ih =>
      obtain ⟨other, target, val, ⟨str, hstr, rfl⟩, -⟩ := hall entry List.mem_cons_self
      have hdistinct : (setting, channel) ≠ (other, target) := by
        intro h
        obtain ⟨rfl, rfl⟩ := Prod.mk.inj h
        exact hne _ List.mem_cons_self val ⟨str, hstr, rfl⟩
      rw [loadEntry_settingKey board hstr, ih _ (fun e he => hall e (List.mem_cons_of_mem _ he))
        (fun e he => hne e (List.mem_cons_of_mem _ he)), loadSetting, readCb_putLe32]
      exact codecGetProperty_set_of_ne board.linearRange board.channels hdistinct 0 val codec

theorem loadEntries_get_of_mem {setting : Setting} {channel : AudioChannel} {val : PropertyValue}
    (k : Nat) (entries : List (Key × List UInt8)) (hall : AllSaved board entries)
    (hnodup : (entries.map Prod.fst).Nodup) {entry : Key × List UInt8} (hmem : entry ∈ entries)
    (hsaved : SavedBy setting channel val entry) (haccepts : Accepts board.linearRange setting val)
    (codec : Codec) :
    codecGetProperty board.linearRange setting.property channel
      (loadEntries board (fun _ => {}) k entries codec) = .ok val := by
  induction entries generalizing k codec with
  | nil => cases hmem
  | cons head entries ih =>
      have hrest : AllSaved board entries := fun e he => hall e (List.mem_cons_of_mem _ he)
      obtain ⟨hfresh, htail⟩ := List.nodup_cons.mp hnodup
      rcases List.mem_cons.mp hmem with rfl | hin
      · obtain ⟨str, hstr, rfl⟩ := hsaved
        have hne : ∀ entry ∈ entries, ∀ other, ¬ SavedBy setting channel other entry := by
          rintro entry hentry other ⟨str', hstr', rfl⟩
          obtain rfl := Option.some.inj (hstr.symm.trans hstr')
          exact hfresh (List.mem_map.mpr ⟨_, hentry, rfl⟩)
        rw [loadEntry_settingKey board hstr, loadEntries_get_of_forall_ne board _ _ hrest hne,
          loadSetting, readCb_putLe32]
        exact codecGetProperty_set board.linearRange board.channels hstr haccepts codec
      · obtain ⟨other, target, value, ⟨str, hstr, rfl⟩, -⟩ := hall head List.mem_cons_self
        rw [loadEntry_settingKey board hstr]
        exact ih _ hrest htail hin _

theorem audioSettingsChannelSave_spec {channel : AudioChannel} {str : Key}
    (hstr : audioChannelToString channel = some str) (io : Int) (setting : Setting)
    (val : List UInt8) (store : board.settings.Store) :
    audioSettingsChannelSave board io channel setting.name val store =
      if io ≠ 0 then (io, store)
      else (0, board.settings.saveOne store (settingKey str setting.name) val) := by
  simp only [audioSettingsChannelSave, hstr, if_neg (settingKey_length hstr)]

/-- What a call of a setter leaves, depending on what it returns. -/
structure SetResult (setting : Setting) (channel : AudioChannel) (val : PropertyValue)
    (s : Audio board) (result : Int × Audio board) : Prop where
  init : result.2.init = s.init
  log : result.2.log = s.log
  failed : result.1 ≠ 0 → result.2.store = s.store
  saved : result.1 = 0 → Accepts board.linearRange setting val ∧
    ∃ str, audioChannelToString channel = some str ∧ result.2.store =
      board.settings.saveOne s.store (settingKey str setting.name) (putLe32 val.bits)

theorem audioSet_result (setting : Setting) (io : SetIo) (channel : AudioChannel)
    (val : PropertyValue) (s : Audio board) :
    SetResult board setting channel val s (audioSet board setting io channel val s) := by
  simp only [audioSet]
  split
  · exact ⟨rfl, rfl, fun _ => rfl, fun h => absurd h (by dsimp only; decide)⟩
  · split
    · rename_i hret
      exact ⟨rfl, rfl, fun _ => rfl, fun h => absurd h hret⟩
    · rename_i hret
      obtain ⟨⟨str, hstr⟩, haccepts⟩ :=
        codecSetProperty_accepts board.linearRange board.channels (not_not.mp hret)
      rw [if_neg (by decide)]
      simp only [audioSettingsChannelSave_spec board hstr]
      split
      · rename_i hio
        exact ⟨rfl, rfl, fun _ => rfl, fun h => absurd h hio⟩
      · exact ⟨rfl, rfl, fun h => absurd rfl h, fun _ => ⟨haccepts, str, hstr, rfl⟩⟩

/-- The store and the log of the setters agree. -/
structure Recorded (s : Audio board) : Prop where
  init : s.init = true
  entries : ∀ entry ∈ board.settings.entries s.store, ∃ setting channel val,
    SavedBy setting channel val entry ∧ s.log.lookup (setting, channel) = some val
  logged : ∀ setting channel val, s.log.lookup (setting, channel) = some val →
    Accepts board.linearRange setting val ∧
      ∃ entry ∈ board.settings.entries s.store, SavedBy setting channel val entry

theorem Recorded.allSaved {s : Audio board} (hs : Recorded board s) :
    AllSaved board (board.settings.entries s.store) := by
  intro entry hentry
  obtain ⟨setting, channel, val, hsaved, hlog⟩ := hs.entries entry hentry
  exact ⟨setting, channel, val, hsaved, (hs.logged setting channel val hlog).1⟩

theorem recorded_firstBoot : Recorded board (firstBoot board) := by
  refine ⟨rfl, ?_, ?_⟩
  · intro entry hentry
    simp only [firstBoot, audioInit, board.settings.entries_blank, List.not_mem_nil] at hentry
  · intro setting channel val hlog
    cases hlog

theorem recorded_noted {s : Audio board} (hs : Recorded board s) {setting : Setting}
    {channel : AudioChannel} {val : PropertyValue} {result : Int × Audio board}
    (hresult : SetResult board setting channel val s result) :
    Recorded board (noted board setting channel val result) := by
  obtain ⟨hinit, hlog, hfailed, hsaved⟩ := hresult
  simp only [noted]
  split
  · rename_i hret
    obtain ⟨haccepts, str, hstr, hstore⟩ := hsaved hret
    have hkey : ∀ {other target value entry}, SavedBy other target value entry →
        (other, target) ≠ (setting, channel) → entry.1 ≠ settingKey str setting.name := by
      rintro other target value entry ⟨str', hstr', rfl⟩ hne heq
      obtain ⟨rfl, rfl⟩ := settingKey_injective hstr' hstr heq
      exact hne rfl
    refine ⟨hinit.trans hs.init, ?_, ?_⟩
    · intro entry hentry
      rw [hstore, board.settings.mem_saveOne] at hentry
      rcases hentry with rfl | ⟨hentry, hne⟩
      · exact ⟨setting, channel, val, ⟨str, hstr, rfl⟩, by simp⟩
      · obtain ⟨other, target, value, hother, hlookup⟩ := hs.entries entry hentry
        refine ⟨other, target, value, hother, ?_⟩
        have hdistinct : (other, target) ≠ (setting, channel) := by
          intro heq
          obtain ⟨rfl, rfl⟩ := Prod.mk.inj heq
          obtain ⟨str', hstr', rfl⟩ := hother
          obtain rfl := Option.some.inj (hstr.symm.trans hstr')
          exact hne rfl
        rw [List.lookup_cons, hlog, beq_eq_false_iff_ne.mpr hdistinct]
        exact hlookup
    · intro other target value hlookup
      rw [List.lookup_cons, hlog] at hlookup
      rcases Decidable.em ((other, target) = (setting, channel)) with heq | hdistinct
      · obtain ⟨rfl, rfl⟩ := Prod.mk.inj heq
        simp only [BEq.rfl, Option.some.injEq] at hlookup
        subst hlookup
        refine ⟨haccepts, _, ?_, str, hstr, rfl⟩
        rw [hstore, board.settings.mem_saveOne]
        exact Or.inl rfl
      · rw [beq_eq_false_iff_ne.mpr hdistinct] at hlookup
        obtain ⟨hother, entry, hentry, hby⟩ := hs.logged other target value hlookup
        refine ⟨hother, entry, ?_, hby⟩
        rw [hstore, board.settings.mem_saveOne]
        exact Or.inr ⟨hentry, hkey hby hdistinct⟩
  · rename_i hret
    have hstore := hfailed hret
    refine ⟨hinit.trans hs.init, ?_, ?_⟩
    · rw [hstore, hlog]
      exact hs.entries
    · rw [hstore, hlog]
      exact hs.logged

theorem recorded_step {s : Audio board} (hs : Recorded board s) (i : Input) :
    Recorded board (step board s i) := by
  cases i with
  | setAnalogGain io channel gain => exact recorded_noted board hs (audioSet_result board _ _ _ _ s)
  | setDigitalGain io channel gain => exact recorded_noted board hs (audioSet_result board _ _ _ _ s)
  | setImpedance io channel impedance =>
      exact recorded_noted board hs (audioSet_result board _ _ _ _ s)
  | reboot io => exact ⟨rfl, hs.entries, hs.logged⟩

theorem audioGet_rebooted {s : Audio board} (hs : Recorded board s) (setting : Setting)
    (channel : AudioChannel) :
    audioGet board setting channel (rebooted board s) =
      (s.log.lookup (setting, channel)).elim (audioGet board setting channel (firstBoot board))
        Except.ok := by
  rcases hlog : s.log.lookup (setting, channel) with _ | val
  · have hne : ∀ entry ∈ board.settings.entries s.store, ∀ val,
        ¬ SavedBy setting channel val entry := by
      rintro entry hentry val ⟨str, hstr, rfl⟩
      obtain ⟨other, target, value, ⟨str', hstr', heq⟩, hlookup⟩ := hs.entries _ hentry
      obtain ⟨rfl, rfl⟩ := settingKey_injective hstr hstr' (Prod.mk.inj heq).1
      rw [hlog] at hlookup
      cases hlookup
    have hblank : (firstBoot board).codec = codecInitial board.regs := by
      simp only [firstBoot, audioInit, board.settings.entries_blank, loadEntries]
    simp only [audioGet, Option.elim_none, hblank]
    exact loadEntries_get_of_forall_ne board 0 _ (hs.allSaved board) hne _
  · obtain ⟨haccepts, entry, hentry, hsaved⟩ := hs.logged setting channel val hlog
    exact loadEntries_get_of_mem board 0 _ (hs.allSaved board)
      (board.settings.nodup_entries s.store) hentry hsaved haccepts _

/-- The setting and the channel of a call of a setter. -/
def target : Input → Option (Setting × AudioChannel)
  | .setAnalogGain _ channel _ => some (.analogGain, channel)
  | .setDigitalGain _ channel _ => some (.digitalGain, channel)
  | .setImpedance _ channel _ => some (.impedance, channel)
  | .reboot _ => none

theorem audioGet_noted (setting : Setting) (io : SetIo) (channel : AudioChannel)
    (val : PropertyValue) (s : Audio board) {other : Setting × AudioChannel}
    (hne : other ≠ (setting, channel)) :
    audioGet board other.1 other.2
        (noted board setting channel val (audioSet board setting io channel val s)) =
      audioGet board other.1 other.2 s := by
  have hcodec := codecGetProperty_set_of_ne board.linearRange board.channels hne io.codec val s.codec
  have hget : ∀ result : Int × Audio board,
      audioGet board other.1 other.2 (noted board setting channel val result) =
        audioGet board other.1 other.2 result.2 := by
    intro result
    simp only [noted]
    split <;> rfl
  rw [hget]
  simp only [audioSet]
  split
  · rfl
  · split
    · simp only [audioGet, hcodec]
    · split
      · simp only [audioGet, hcodec]
      · simp only [audioGet, hcodec]

theorem audioGet_step_of_ne {i : Input} {setting : Setting × AudioChannel}
    (hi : target i = some setting) (s : Audio board) {other : Setting × AudioChannel}
    (hne : other ≠ setting) :
    audioGet board other.1 other.2 (step board s i) = audioGet board other.1 other.2 s := by
  cases i with
  | reboot io => cases hi
  | _ =>
      obtain rfl := Option.some.inj hi
      exact audioGet_noted board _ _ _ _ s hne

/-- After a reboot the getters return the last values whose setters returned 0,
or what they returned at first. -/
structure Persists (s : Audio board) : Prop where
  analogGain : ∀ channel, audioGetAnalogGain board channel (rebooted board s) =
    (s.log.lookup (.analogGain, channel)).elim (audioGetAnalogGain board channel (firstBoot board))
      fun val => .ok val.bits.toInt32
  digitalGain : ∀ channel, audioGetDigitalGain board channel (rebooted board s) =
    (s.log.lookup (.digitalGain, channel)).elim
      (audioGetDigitalGain board channel (firstBoot board)) fun val => .ok val.bits.toInt32
  impedance : ∀ channel, audioGetImpedance board channel (rebooted board s) =
    (s.log.lookup (.impedance, channel)).elim (audioGetImpedance board channel (firstBoot board))
      fun val => .ok val.impedance

theorem map_elim_ok {α β : Type} (f : α → β) (noted : Option α) (first : Except Int α) :
    (noted.elim first Except.ok).map f = noted.elim (first.map f) fun val => .ok (f val) := by
  cases noted <;> rfl

theorem Recorded.persists {s : Audio board} (hs : Recorded board s) : Persists board s := by
  constructor
  · intro channel
    simp only [audioGetAnalogGain, audioGet_rebooted board hs]
    exact map_elim_ok _ _ _
  · intro channel
    simp only [audioGetDigitalGain, audioGet_rebooted board hs]
    exact map_elim_ok _ _ _
  · intro channel
    simp only [audioGetImpedance, audioGet_rebooted board hs]
    exact map_elim_ok _ _ _

/-- Every run of setters and reboots leaves settings that persist, and a setter
changes no other setting. -/
theorem settings_persist (inputs : List Input) :
    Persists board (run (step board) (firstBoot board) inputs) ∧
      ∀ i setting, target i = some setting → ∀ other, other ≠ setting →
        audioGet board other.1 other.2
            (step board (run (step board) (firstBoot board) inputs) i) =
          audioGet board other.1 other.2 (run (step board) (firstBoot board) inputs) := by
  have hs : Recorded board (run (step board) (firstBoot board) inputs) :=
    invariant_run_of_step (P := Recorded board) (fun _ i h => recorded_step board h i)
      (recorded_firstBoot board) inputs
  refine ⟨hs.persists board, ?_⟩
  intro i setting hi other hne
  exact audioGet_step_of_ne board hi _ hne

end

example :
    let board : Board := ⟨linearRangeUtils, listSettings, [], fun _ => 0⟩
    let s := step board (firstBoot board) (.setAnalogGain {} .frontLeft 6)
    (audioGetAnalogGain board .frontLeft (rebooted board s),
      audioGetAnalogGain board .frontRight (rebooted board s)) = (.ok 6, .ok 0) := by
  decide

end ZeusLe.SettingsPersistence
