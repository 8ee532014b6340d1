import ZeusLe.LedPattern

/-!
The LED, `led.c`, on the controller of `lp58xx.c`: what its engines play after the
calls that select patterns, with any of them failing, and after the pulses of a
recording.
-/

namespace ZeusLe.LedPrograms

open ZeusLe.LedPattern
open ZeusLe.Library.Run
open scoped ZeusLe.Lp58xxEngine
open ZeusLe.Lp58xxEngine (AeuConfig AeConfig Bus Config Program Tracked Transfer aeAddr answers
  autonomous cmdStartAddr decode lp5812)

section

variable (cfg : Config) (io : Nat → Transfer)

def call (s : Tracked) (call : Lp58xxEngine.Call) : Int × Tracked :=
  ((call.result cfg io s.bus).1, Lp58xxEngine.step cfg io s call)

/-- The colour that is shown, channel by channel. -/
def shownPwm (s : Tracked) : Nat → UInt8 :=
  (Lp58xxEngine.lp58xxGetAutoPwm cfg io 0 3 s.bus).2.1

def configureAndStart : List (Nat × AeConfig) → Tracked → Int × Tracked
  | [], s => call cfg io s .start
  | (channel, aeCfg) :: configs, s =>
      let (ret, s) := call cfg io s (.aeConfigure (UInt8.ofNat channel) aeCfg)
      if ret < 0 then (ret, s) else configureAndStart configs s

/-- A pattern function, with the colour it starts from. -/
def runPattern (f : PatternFunc) (s : Tracked) : Int × (Nat → UInt8) × Tracked :=
  if f.pauses then
    let (ret, s) := call cfg io s .pause
    if ret < 0 then (ret, fun _ => 0, s)
    else
      let startPwm := shownPwm cfg io s
      let (ret, s) := call cfg io s (.getAutoPwm 0 3)
      if ret < 0 then (ret, startPwm, s)
      else
        let (ret, s) := configureAndStart cfg io (f.channels startPwm) s
        (ret, startPwm, s)
  else
    let (ret, s) := configureAndStart cfg io (f.channels fun _ => 0) s
    (ret, fun _ => 0, s)

end

/-- `ret` is what `led_set_pattern` returned for the pattern that is remembered.
`shown` is the last function that ran, with the colour it started from, when all of
its calls succeeded. -/
structure Device where
  data : LedData
  tracked : Tracked
  ret : Int
  shown : Option (PatternFunc × (Nat → UInt8))

section

variable (node : Node) (cfg : Config) (io : Nat → Transfer)

def runFunc (f : PatternFunc) (s : Device) : Int × Device :=
  let (ret, startPwm, tracked) := runPattern cfg io f s.tracked
  (ret, { s with tracked := tracked, shown := if ret < 0 then none else some (f, startPwm) })

def ledSetPattern (pattern : Pattern) (s : Device) : Int × Device :=
  if pattern ≠ s.data.pattern then
    let s := { s with data := { s.data with pattern := pattern } }
    match patterns node pattern with
    | some patternFunc =>
        let (ret, s) := runFunc cfg io patternFunc s
        (ret, { s with ret := ret })
    | none => (-1, { s with ret := -1 })
  else (0, s)

def ledUpdate (s : Device) : Int × Device :=
  ledSetPattern node cfg io (selected node s.data) s

def ledBoot (s : Device) : Int × Device :=
  ledSetPattern node cfg io .startup { s with data := { s.data with powerState := .on } }

def ledRecordSyncWorkHandler (s : Device) : Device :=
  if s.data.recordState = .running then (runFunc cfg io ledPatternRecordSyncPulse s).2 else s

end

inductive Call (node : Node) where
  | boot
  | update (call : Update node)

def Call.result {node : Node} (cfg : Config) (io : Nat → Transfer) (s : Device) :
    Call node → Int × Device
  | .boot => ledBoot node cfg io s
  | .update call => ledUpdate node cfg io { s with data := call.note s.data }

def callStep {node : Node} (cfg : Config) (io : Nat → Transfer) (s : Device) (call : Call node) :
    Device :=
  (call.result cfg io s).2

/-- A call to `led.c`, or a run of the work item of the pulses. -/
inductive Event (node : Node) where
  | call (call : Call node)
  | pulse

def step {node : Node} (cfg : Config) (io : Nat → Transfer) (s : Device) : Event node → Device
  | .call call => callStep cfg io s call
  | .pulse => ledRecordSyncWorkHandler cfg io s

/-- A controller in any state, before the first call. -/
def initial (bus : Bus) : Device :=
  ⟨ledData, ⟨bus, fun _ => none⟩, 0, none⟩

def exactUnit (aeu : AeuConfig) : Lp58xxEngine.Unit where
  pwm := aeu.pwm.toList
  timeMsec := aeu.timeMsec.toList.map UInt16.toNat
  repeats := aeu.repeats

def exactProgram (ae : AeConfig) : Program where
  pauseStartMsec := ae.pauseStartMsec.toNat
  pauseEndMsec := ae.pauseEndMsec.toNat
  repeats := ae.repeats
  units := (ae.aeu.toList.take ae.numAeu).map exactUnit

theorem eq_of_nearest {msec time : Nat} (hmem : msec ∈ Lp58xxEngine.aeTimes)
    (h : Lp58xxEngine.Nearest msec time) : time = msec := by
  have hdist := h.2 msec hmem
  rw [Nat.dist_self] at hdist
  exact (Nat.eq_of_dist_eq_zero (Nat.le_zero.mp hdist)).symm

theorem eq_map_of_forall₂ {α β : Type} {R : β → α → Prop} {f : α → β} {bs : List β} {as : List α}
    (h : List.Forall₂ R bs as) (hf : ∀ a ∈ as, ∀ b, R b a → b = f a) : bs = as.map f := by
  induction h with
  | nil => rfl
  | cons hhead _ ih =>
      rw [List.map_cons, hf _ List.mem_cons_self _ hhead,
        ih fun a ha => hf a (List.mem_cons_of_mem _ ha)]

theorem unit_eq {unit : Lp58xxEngine.Unit} {aeu : AeuConfig} (hfits : AeuFits aeu)
    (h : Lp58xxEngine.UnitPlays unit aeu) : unit = exactUnit aeu := by
  obtain ⟨unitPwm, unitTime, unitRepeats⟩ := h
  have htimes := eq_map_of_forall₂ unitTime fun msec hmsec time hnear =>
    eq_of_nearest (hfits msec hmsec) hnear
  obtain ⟨pwm, timeMsec, repeats⟩ := unit
  simp only at unitPwm htimes unitRepeats
  rw [unitPwm, htimes, unitRepeats]
  rfl

theorem program_eq {program : Program} {ae : AeConfig} (hfits : AeFits ae)
    (h : Lp58xxEngine.Plays program ae) : program = exactProgram ae := by
  obtain ⟨hstart, hend, hunits⟩ := hfits
  obtain ⟨programStart, programEnd, programRepeats, programUnits⟩ := h
  have heq := eq_map_of_forall₂ programUnits fun aeu haeu unit hplays =>
    unit_eq (hunits aeu (List.mem_of_mem_take haeu)) hplays
  obtain ⟨pauseStart, pauseEnd, repeats, units⟩ := program
  simp only at programStart programEnd programRepeats heq
  rw [eq_of_nearest hstart programStart, eq_of_nearest hend programEnd, programRepeats, heq]
  rfl

/-- The first value of a program. -/
def startsFrom (program : Program) : Option UInt8 :=
  program.units.head?.bind (·.pwm.head?)

theorem startsFrom_exactProgram {ae : AeConfig} (hnum : ae.numAeu ≠ 0) :
    startsFrom (exactProgram ae) = firstPwm ae := by
  have hpos : (ae.numAeu : Nat) ≠ 0 := fun h => hnum (Fin.ext h)
  simp only [startsFrom, firstPwm, exactProgram, List.head?_map, List.head?_take, if_neg hpos]
  cases ae.aeu.toList.head? with
  | none => rfl
  | some aeu => rfl

section

variable (cfg : Config) (io : Nat → Transfer)

/-- The driver's registers are those of the configurations that it was given. -/
abbrev Coherent (s : Tracked) : Prop :=
  Lp58xxEngine.Coherent cfg s

theorem call_coherent {s : Tracked} (hs : Coherent cfg s) {c : Lp58xxEngine.Call}
    (hwrap : c.NoWrap cfg) : Coherent cfg (call cfg io s c).2 :=
  Lp58xxEngine.step_coherent hs hwrap

theorem call_configs {s : Tracked} {c : Lp58xxEngine.Call} (hnone : c.configures = none) :
    (call cfg io s c).2.configs = s.configs := by
  simp only [call, Lp58xxEngine.step, hnone]

theorem call_start_commands {s : Tracked} (hret : 0 ≤ (call cfg io s .start).1) :
    (call cfg io s .start).2.bus.commands.getLast? = some cmdStartAddr := by
  change (Lp58xxEngine.lp58xxStart io s.bus).2.commands.getLast? = _
  rw [Lp58xxEngine.lp58xxStart_commands io hret, List.getLast?_concat]

theorem call_aeConfigure_configs (s : Tracked) (channel : UInt8) (aeCfg : AeConfig)
    (hret : ¬ (call cfg io s (.aeConfigure channel aeCfg)).1 < 0) :
    (call cfg io s (.aeConfigure channel aeCfg)).2.configs =
      Function.update s.configs channel.toNat (some aeCfg) := by
  simp only [call, Lp58xxEngine.step, Lp58xxEngine.Call.configures] at hret ⊢
  rw [if_neg hret]

theorem configureAndStart_coherent (configs : List (Nat × AeConfig)) {s : Tracked}
    (hs : Coherent cfg s) : Coherent cfg (configureAndStart cfg io configs s).2 := by
  induction configs generalizing s with
  | nil => exact call_coherent cfg io hs trivial
  | cons config configs ih =>
      have hnext := call_coherent cfg io hs
        (c := .aeConfigure (UInt8.ofNat config.1) config.2) trivial
      simp only [configureAndStart]
      split
      · exact hnext
      · exact ih hnext

/-- When all calls succeed, each channel was given its configuration, and the last
command started the engines. -/
structure Given (configs : List (Nat × AeConfig)) (s s' : Tracked) : Prop where
  given : ∀ config ∈ configs, s'.configs config.1 = some config.2
  kept : ∀ ch, ch ∉ configs.map Prod.fst → s'.configs ch = s.configs ch
  started : s'.bus.commands.getLast? = some cmdStartAddr

theorem configureAndStart_given {configs : List (Nat × AeConfig)}
    (hnodup : (configs.map Prod.fst).Nodup) (hbyte : ∀ config ∈ configs, config.1 < 256)
    {s : Tracked} (hret : 0 ≤ (configureAndStart cfg io configs s).1) :
    Given configs s (configureAndStart cfg io configs s).2 := by
  induction configs generalizing s with
  | nil =>
      refine ⟨fun _ h => absurd h List.not_mem_nil, fun ch _ => ?_, ?_⟩
      · rw [configureAndStart, call_configs cfg io rfl]
      · exact call_start_commands cfg io hret
  | cons config configs ih =>
      simp only [List.map_cons, List.nodup_cons] at hnodup
      obtain ⟨hfresh, hrest⟩ := hnodup
      simp only [configureAndStart] at hret ⊢
      split at hret
      · rename_i hneg
        exact absurd hret (Int.not_le.mpr hneg)
      · rename_i hok
        rw [if_neg hok]
        have hconfigs := call_aeConfigure_configs cfg io s _ _ hok
        have hchannel : (UInt8.ofNat config.1).toNat = config.1 := by
          rw [UInt8.toNat_ofNat']
          exact Nat.mod_eq_of_lt (hbyte config List.mem_cons_self)
        rw [hchannel] at hconfigs
        obtain ⟨hgiven, hkept, hstarted⟩ :=
          ih hrest (fun config hconfig => hbyte config (List.mem_cons_of_mem _ hconfig)) hret
        refine ⟨?_, ?_, hstarted⟩
        · intro other hother
          rcases List.mem_cons.mp hother with rfl | hother
          · rw [hkept _ hfresh, hconfigs, Function.update_self]
          · exact hgiven other hother
        · intro ch hch
          simp only [List.map_cons, List.mem_cons, not_or] at hch
          rw [hkept ch hch.2, hconfigs, Function.update_of_ne hch.1]

theorem runPattern_coherent (f : PatternFunc) {s : Tracked} (hs : Coherent cfg s) :
    Coherent cfg (runPattern cfg io f s).2.2 := by
  have hpause := call_coherent cfg io hs (c := .pause) trivial
  have hpwm := call_coherent cfg io hpause (c := .getAutoPwm 0 3) trivial
  simp only [runPattern]
  split
  · split
    · exact hpause
    · split
      · exact hpwm
      · exact configureAndStart_coherent cfg io _ hpwm
  · exact configureAndStart_coherent cfg io _ hs

theorem runPattern_given {node : Node} {f : PatternFunc} (hf : IsLedFunc node f) {s : Tracked}
    (hret : 0 ≤ (runPattern cfg io f s).1) :
    (∀ config ∈ f.channels (runPattern cfg io f s).2.1,
        (runPattern cfg io f s).2.2.configs config.1 = some config.2) ∧
      (runPattern cfg io f s).2.2.bus.commands.getLast? = some cmdStartAddr := by
  have hgiven (startPwm : Nat → UInt8) {t : Tracked}
      (hret : 0 ≤ (configureAndStart cfg io (f.channels startPwm) t).1) :
      Given (f.channels startPwm) t (configureAndStart cfg io (f.channels startPwm) t).2 :=
    configureAndStart_given cfg io (hf.nodup startPwm) (fun config hconfig =>
      Nat.lt_trans (hf.sound startPwm config hconfig).channel (by decide)) hret
  simp only [runPattern] at hret ⊢
  split at hret
  · rename_i hpauses
    rw [if_pos hpauses]
    split at hret
    · rename_i hneg
      exact absurd hret (Int.not_le.mpr hneg)
    · rename_i hpause
      rw [if_neg hpause]
      split at hret
      · rename_i hneg
        exact absurd hret (Int.not_le.mpr hneg)
      · rename_i hpwm
        rw [if_neg hpwm]
        exact ⟨(hgiven _ hret).given, (hgiven _ hret).started⟩
  · rename_i hpauses
    rw [if_neg hpauses]
    exact ⟨(hgiven _ hret).given, (hgiven _ hret).started⟩

end

/-- The engines run on their own, were started last, and have the programs of the
function. -/
structure PlaysFunc (f : PatternFunc) (startPwm : Nat → UInt8) (bus : Bus) : Prop where
  started : bus.commands.getLast? = some cmdStartAddr
  programs : ∀ channel aeCfg, (channel, aeCfg) ∈ f.channels startPwm →
    autonomous bus.regs channel = true ∧
      decode (fun offset => bus.regs (aeAddr channel + offset)) = exactProgram aeCfg

/-- The channels of the function that is shown were given its configurations, and
started. -/
structure Showing (node : Node) (cfg : Config) (s : Device) : Prop where
  coherent : Coherent cfg s.tracked
  shown : ∀ f startPwm, s.shown = some (f, startPwm) → IsLedFunc node f ∧
    (∀ config ∈ f.channels startPwm, s.tracked.configs config.1 = some config.2) ∧
      s.tracked.bus.commands.getLast? = some cmdStartAddr

section

variable {node : Node} {cfg : Config} (io : Nat → Transfer)

theorem Showing.initial (bus : Bus) : Showing node cfg (initial bus) where
  coherent _ _ hch := nomatch hch
  shown _ _ h := nomatch h

theorem Showing.plays {s : Device} (hs : Showing node cfg s) {f : PatternFunc}
    {startPwm : Nat → UInt8} (hshown : s.shown = some (f, startPwm)) :
    PlaysFunc f startPwm s.tracked.bus := by
  obtain ⟨hf, hgiven, hstarted⟩ := hs.shown f startPwm hshown
  refine ⟨hstarted, fun channel aeCfg hconfig => ?_⟩
  have hconfigures := hs.coherent channel aeCfg (hgiven (channel, aeCfg) hconfig)
  have hplays := Lp58xxEngine.plays_of_holds hconfigures.numAeu hconfigures.holds
  exact ⟨hconfigures.auto, program_eq (hf.sound startPwm (channel, aeCfg) hconfig).fits hplays⟩

theorem runFunc_showing {f : PatternFunc} (hf : IsLedFunc node f) {s : Device}
    (hs : Showing node cfg s) : Showing node cfg (runFunc cfg io f s).2 := by
  constructor
  · exact runPattern_coherent cfg io f hs.coherent
  · intro f' startPwm hshown
    simp only [runFunc] at hshown ⊢
    split at hshown
    · cases hshown
    · rename_i hok
      cases hshown
      exact ⟨hf, runPattern_given cfg io hf (Int.not_lt.mp hok)⟩

theorem runFunc_shown {f : PatternFunc} {s : Device} (hret : 0 ≤ (runFunc cfg io f s).1) :
    ∃ startPwm, (runFunc cfg io f s).2.shown = some (f, startPwm) := by
  simp only [runFunc] at hret ⊢
  exact ⟨_, if_neg (Int.not_lt.mpr hret)⟩

theorem ledSetPattern_showing (pattern : Pattern) {s : Device} (hs : Showing node cfg s) :
    Showing node cfg (ledSetPattern node cfg io pattern s).2 := by
  simp only [ledSetPattern]
  split
  · cases hf : patterns node pattern with
    | none => exact ⟨hs.coherent, hs.shown⟩
    | some f =>
        have hnext := runFunc_showing io (Or.inr ⟨pattern, hf⟩)
          (s := { s with data := { s.data with pattern := pattern } }) ⟨hs.coherent, hs.shown⟩
        exact ⟨hnext.coherent, hnext.shown⟩
  · exact hs

theorem callStep_showing {s : Device} (call : Call node) (hs : Showing node cfg s) :
    Showing node cfg (callStep cfg io s call) := by
  cases call with
  | boot => exact ledSetPattern_showing io _ ⟨hs.coherent, hs.shown⟩
  | update call => exact ledSetPattern_showing io _ ⟨hs.coherent, hs.shown⟩

theorem step_showing {s : Device} (event : Event node) (hs : Showing node cfg s) :
    Showing node cfg (step cfg io s event) := by
  cases event with
  | call call => exact callStep_showing io call hs
  | pulse =>
      simp only [step, ledRecordSyncWorkHandler]
      split
      · exact runFunc_showing io (Or.inl rfl) hs
      · exact hs

end

/-- After any calls, with any transactions failing, the engines play what the last
function programmed, if all of its calls succeeded: every time and every value
as `led.c` has it, and from the colour that was read on. -/
theorem engines_play_shown (node : Node) (cfg : Config) (io : Nat → Transfer) (bus : Bus)
    (events : List (Event node)) (f : PatternFunc) (startPwm : Nat → UInt8)
    (hshown : (run (step cfg io) (initial bus) events).shown = some (f, startPwm)) :
    IsLedFunc node f ∧
      PlaysFunc f startPwm (run (step cfg io) (initial bus) events).tracked.bus ∧
      ∀ channel aeCfg, (channel, aeCfg) ∈ f.channels startPwm → f.pauses = true →
        startsFrom (exactProgram aeCfg) = some (startPwm channel) := by
  have hshowing : Showing node cfg (run (step cfg io) (initial bus) events) :=
    invariant_run_of_step (fun _ event hs => step_showing io event hs) (.initial bus) events
  obtain ⟨hf, -, -⟩ := hshowing.shown f startPwm hshown
  refine ⟨hf, hshowing.plays hshown, ?_⟩
  intro channel aeCfg hconfig hpauses
  obtain ⟨-, hnum, -, hfades⟩ := hf.sound startPwm (channel, aeCfg) hconfig
  rw [startsFrom_exactProgram hnum, hfades hpauses]

/-- A pulse while a node records, from the colour of the running pattern. -/
theorem pulse_plays :
    PlaysFunc ledPatternRecordSyncPulse (fun _ => 0)
      (run (step lp5812 answers) (initial ⟨fun _ => 0, 0, []⟩)
        ([.call .boot, .call (.update .recordStarted), .pulse] : List (Event .audio))).tracked.bus :=
  (engines_play_shown .audio lp5812 answers ⟨fun _ => 0, 0, []⟩
    [.call .boot, .call (.update .recordStarted), .pulse] ledPatternRecordSyncPulse (fun _ => 0)
    (congrArg (fun startPwm => some (ledPatternRecordSyncPulse, startPwm))
      (funext fun i => if_neg (Nat.not_lt.mpr (Nat.le_add_right_of_le (by decide)))))).2.1

/-- The controller shows a pattern. Before the first one it is dark. -/
def Shows (node : Node) (pattern : Pattern) (bus : Bus) : Prop :=
  (∃ f startPwm, patterns node pattern = some f ∧ PlaysFunc f startPwm bus) ∨
    (pattern = .off ∧ bus.commands = [])

section

variable {node : Node} (cfg : Config) (io : Nat → Transfer)

/-- A call through `led_update` that returns 0 leaves the selected pattern in the
controller. -/
def Recovered (s : Device) : Call node → Prop
  | .boot => True
  | .update call =>
      (ledUpdate node cfg io { s with data := call.note s.data }).1 = 0 →
        Shows node (selected node (callStep cfg io s (.update call)).data)
          (callStep cfg io s (.update call)).tracked.bus

/-- The call does not select the remembered pattern when showing it has failed. -/
def NotRepeated (s : Device) : Call node → Prop
  | .boot => True
  | .update call => s.ret < 0 → selected node (call.note s.data) ≠ s.data.pattern

instance (s : Device) : (call : Call node) → Decidable (NotRepeated s call)
  | .boot => isTrue trivial
  | .update _ => inferInstanceAs (Decidable (_ → _ ≠ _))

/-- The remembered pattern is shown, unless showing it has failed. -/
structure Remembers (node : Node) (cfg : Config) (s : Device) : Prop where
  showing : Showing node cfg s
  remembered : 0 ≤ s.ret → (s.data.pattern = .off ∧ s.tracked.bus.commands = []) ∨
    ∃ f startPwm, s.shown = some (f, startPwm) ∧ patterns node s.data.pattern = some f

theorem Remembers.shows {cfg : Config} {s : Device} (hs : Remembers node cfg s)
    (hret : 0 ≤ s.ret) : Shows node s.data.pattern s.tracked.bus := by
  rcases hs.remembered hret with hdark | ⟨f, startPwm, hshown, hf⟩
  · exact Or.inr hdark
  · exact Or.inl ⟨f, startPwm, hf, hs.showing.plays hshown⟩

theorem Remembers.note {cfg : Config} {s : Device} (hs : Remembers node cfg s) {data : LedData}
    (hpattern : data.pattern = s.data.pattern) : Remembers node cfg { s with data := data } where
  showing := ⟨hs.showing.coherent, hs.showing.shown⟩
  remembered hret := by
    change (data.pattern = .off ∧ _) ∨ ∃ f startPwm, _ ∧ patterns node data.pattern = some f
    rw [hpattern]
    exact hs.remembered hret

theorem ledSetPattern_of_eq {s : Device} {pattern : Pattern} (heq : pattern = s.data.pattern) :
    ledSetPattern node cfg io pattern s = (0, s) := by
  rw [ledSetPattern, if_neg (not_not.mpr heq)]

theorem ledSetPattern_of_ne {s : Device} {pattern : Pattern} (hne : pattern ≠ s.data.pattern)
    {f : PatternFunc} (hf : patterns node pattern = some f) :
    let r := ledSetPattern node cfg io pattern s
    r.2.ret = r.1 ∧ r.2.data = { s.data with pattern := pattern } ∧
      (0 ≤ r.1 → ∃ startPwm, r.2.shown = some (f, startPwm)) := by
  simp only [ledSetPattern, if_pos hne, hf]
  exact ⟨trivial, rfl, runFunc_shown io⟩

theorem ledSetPattern_remembers {s : Device} (hs : Remembers node cfg s) {pattern : Pattern}
    (hpattern : ∃ f, patterns node pattern = some f) :
    Remembers node cfg (ledSetPattern node cfg io pattern s).2 := by
  rcases eq_or_ne pattern s.data.pattern with heq | hne
  · rw [ledSetPattern_of_eq cfg io heq]
    exact hs
  · obtain ⟨f, hf⟩ := hpattern
    obtain ⟨hret, hdata, hshown⟩ := ledSetPattern_of_ne cfg io hne hf
    refine ⟨ledSetPattern_showing io pattern hs.showing, fun hok => Or.inr ?_⟩
    obtain ⟨startPwm, hstart⟩ := hshown (hret ▸ hok)
    refine ⟨f, startPwm, hstart, ?_⟩
    rw [hdata]
    exact hf

theorem callStep_remembers {s : Device} (hs : Remembers node cfg s) (call : Call node) :
    Remembers node cfg (callStep cfg io s call) := by
  cases call with
  | boot =>
      have hstartup : ∃ f, patterns node .startup = some f := ⟨ledPatternStartup node, rfl⟩
      have hnoted : Remembers node cfg { s with data := { s.data with powerState := .on } } :=
        hs.note rfl
      exact ledSetPattern_remembers cfg io hnoted hstartup
  | update call =>
      exact ledSetPattern_remembers cfg io (hs.note (call.note_pattern s.data))
        (patterns_selected node _)

theorem recovered_of_notRepeated {s : Device} (hs : Remembers node cfg s) {call : Call node}
    (hcall : NotRepeated s call) : Recovered cfg io s call := by
  cases call with
  | boot => trivial
  | update call =>
      intro hret
      have hnext := callStep_remembers cfg io hs (.update call)
      have hremembered := call.note_pattern s.data
      rcases eq_or_ne (selected node (call.note s.data)) s.data.pattern with heq | hne
      · have hstep : callStep cfg io s (.update call) = { s with data := call.note s.data } :=
          congrArg Prod.snd (ledSetPattern_of_eq cfg io (heq.trans hremembered.symm))
        have hok : 0 ≤ s.ret := Int.not_lt.mp fun hfailed => hcall hfailed heq
        rw [hstep] at hnext ⊢
        have hshows := hnext.shows hok
        simp only [hremembered] at hshows ⊢
        rw [heq]
        exact hshows
      · obtain ⟨f, hf⟩ := patterns_selected node (call.note s.data)
        obtain ⟨hresult, hdata, -⟩ := ledSetPattern_of_ne cfg io
          (s := { s with data := call.note s.data }) (hremembered ▸ hne) hf
        have hok : 0 ≤ (callStep cfg io s (.update call)).ret :=
          Int.le_of_eq (hresult.trans hret).symm
        have hshows := hnext.shows hok
        change Shows node (ledSetPattern node cfg io _ _).2.data.pattern _ at hshows
        change Shows node (selected node (ledSetPattern node cfg io _ _).2.data) _
        rw [hdata] at hshows ⊢
        exact hshows

/-- The LED recovers in every run in which no call selects a pattern that could not
be shown, before another one was selected. -/
theorem recovered_run (node : Node) (cfg : Config) (io : Nat → Transfer) (regs : Nat → UInt8)
    {calls : List (Call node)}
    (hcalls : Along (callStep cfg io) NotRepeated (initial ⟨regs, 0, []⟩) calls) :
    Along (callStep cfg io) (Recovered cfg io) (initial ⟨regs, 0, []⟩) calls := by
  have hinitial : Remembers node cfg (initial ⟨regs, 0, []⟩) :=
    ⟨.initial _, fun _ => Or.inl ⟨rfl, rfl⟩⟩
  exact along_of_invariant (P := Remembers node cfg)
    (fun s call hs _ => callStep_remembers cfg io hs call)
    (fun s call hs hcall => recovered_of_notRepeated cfg io hs hcall) hinitial hcalls

end

/-- A controller on which one transaction fails without effect. -/
def failsAt (k : Nat) : Nat → Transfer :=
  fun n => if n = k then ⟨-5, 0, fun _ => 0, by decide⟩ else answers n

/-- Waiting for a recording cannot be shown; that it runs can. -/
theorem recovered_run_next_pattern :
    Along (callStep lp5812 (failsAt 6)) (Recovered lp5812 (failsAt 6))
      (initial ⟨fun _ => 0, 0, []⟩)
      ([.boot, .update .recordWaiting, .update .recordStarted] : List (Call .audio)) :=
  recovered_run .audio lp5812 (failsAt 6) (fun _ => 0) (by decide +kernel)

/-- The pause of the first call fails, and the second one returns 0 all the same. -/
theorem failed_pattern_skipped :
    let calls : List (Call .audio) := [.boot, .update .recordStarted, .update .recordStarted]
    ¬ Along (callStep lp5812 (failsAt 6)) (Recovered lp5812 (failsAt 6))
      (initial ⟨fun _ => 0, 0, []⟩) calls := by
  intro calls h
  obtain ⟨-, -, hrecovered, -⟩ := h
  rcases hrecovered (by decide +kernel) with ⟨f, startPwm, hf, hplays⟩ | ⟨hoff, -⟩
  · obtain rfl : ledPatternRecordRunning = f := Option.some.inj hf
    obtain ⟨hauto, -⟩ := hplays.programs ledRed _ (List.mem_of_getLast? rfl)
    revert hauto
    decide +kernel
  · revert hoff
    decide +kernel

end ZeusLe.LedPrograms
