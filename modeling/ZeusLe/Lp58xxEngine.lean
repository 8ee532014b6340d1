import Mathlib.Data.List.Forall2
import Mathlib.Data.List.GetD
import Mathlib.Data.Nat.Dist
import Mathlib.Tactic.IntervalCases
import ZeusLe.Errno
import ZeusLe.Library.Fields
import ZeusLe.Library.Run

/-!
The autonomous engines of the LED controller, `lp58xx.c`: the registers that
`lp58xx_ae_configure` generates, what an engine plays from them, and the other
calls of the driver beside it.
-/

namespace ZeusLe.Lp58xxEngine

open ZeusLe.Library.BitField
open ZeusLe.Library.Fields
open ZeusLe.Library.Run

def chipEnAddr : Nat := 0x000

def devConfig3Addr : Nat := 0x004

def cmdUpdateAddr : Nat := 0x010

def cmdStartAddr : Nat := 0x011

def cmdStopAddr : Nat := 0x012

def cmdPauseAddr : Nat := 0x013

def cmdContinueAddr : Nat := 0x014

def manualPwmAddr (ch : Nat) : Nat := 0x40 + ch

def aeSize : Nat := 0x1a

def aeAddr (ch : Nat) : Nat := 0x080 + ch * aeSize

def aeuSize : Nat := 0x08

def aeuOffset (aeu : Nat) : Nat := 0x02 + aeu * aeuSize

def tsdConfigStatusAddr : Nat := 0x300

def lodStatus0Addr : Nat := 0x301

def lsdStatus0Addr : Nat := 0x303

def autoPwmAddr (ch : Nat) : Nat := 0x305 + ch

/-! The bit-fields of a configuration have two bits or four. -/

scoped instance neZero_four : NeZero 4 := ⟨Nat.succ_ne_zero 3⟩

scoped instance neZero_sixteen : NeZero 16 := ⟨Nat.succ_ne_zero 15⟩

def lp58xxAeuRepeatInfinite : Fin 4 := 3

def lp58xxAeRepeatInfinite : Fin 16 := 15

/-- `struct lp58xx_aeu_config`; `repeat` is a field of two bits. -/
structure AeuConfig where
  pwm : Vector UInt8 5
  timeMsec : Vector UInt16 4
  repeats : Fin 4
  deriving DecidableEq, Repr

/-- `struct lp58xx_ae_config`; `num_aeu` has two bits and `repeat` has four. -/
structure AeConfig where
  pauseStartMsec : UInt16
  pauseEndMsec : UInt16
  numAeu : Fin 4
  repeats : Fin 16
  aeu : Vector AeuConfig 3
  deriving DecidableEq, Repr

def lp58xxAeTimeFromMsec (msec : UInt16) : BitVec 8 :=
  if msec < 45 then 0x0
  else if msec < 135 then 0x1
  else if msec < 270 then 0x2
  else if msec < 450 then 0x3
  else if msec < 670 then 0x4
  else if msec < 935 then 0x5
  else if msec < 1295 then 0x6
  else if msec < 1790 then 0x7
  else if msec < 2280 then 0x8
  else if msec < 2770 then 0x9
  else if msec < 3530 then 0xa
  else if msec < 4515 then 0xb
  else if msec < 5500 then 0xc
  else if msec < 6525 then 0xd
  else if msec < 7555 then 0xe
  else 0xf

/-- Two fields of one byte, the upper one first. -/
def fields (hi lo hi' lo' : Nat) (value value' : BitVec 8) : UInt8 :=
  ⟨fieldPrep (genmask hi lo) value ||| fieldPrep (genmask hi' lo') value'⟩

def lp58xxAeuConfigGenerate (aeuCfg : AeuConfig) : Except Int (List UInt8) :=
  let t12 := fields 7 4 3 0 (lp58xxAeTimeFromMsec aeuCfg.timeMsec[1])
    (lp58xxAeTimeFromMsec aeuCfg.timeMsec[0])
  let t34 := fields 7 4 3 0 (lp58xxAeTimeFromMsec aeuCfg.timeMsec[3])
    (lp58xxAeTimeFromMsec aeuCfg.timeMsec[2])
  if aeuCfg.repeats > lp58xxAeuRepeatInfinite then .error (-einval)
  else
    let playback : UInt8 := ⟨fieldPrep (genmask 1 0) (BitVec.ofNat 8 aeuCfg.repeats)⟩
    .ok (aeuCfg.pwm.toList ++ [t12, t34, playback])

/-- The bytes of the configuration, at offsets from the first register of an
engine. -/
def lp58xxAeConfigGenerate (aeCfg : AeConfig) : Except Int (List UInt8) :=
  let pause := fields 7 4 3 0 (lp58xxAeTimeFromMsec aeCfg.pauseStartMsec)
    (lp58xxAeTimeFromMsec aeCfg.pauseEndMsec)
  if aeCfg.numAeu < 1 ∨ aeCfg.numAeu > 3 then .error (-einval)
  else if aeCfg.repeats > lp58xxAeRepeatInfinite then .error (-einval)
  else
    let playback := fields 5 4 3 0 (BitVec.ofNat 8 (aeCfg.numAeu - 1))
      (BitVec.ofNat 8 aeCfg.repeats)
    (aeCfg.aeu.toList.mapM lp58xxAeuConfigGenerate).map fun aeus =>
      pause :: playback :: aeus.flatten

/-- The times that an engine supports, by the value of a field, in ms. -/
def aeTimes : List Nat :=
  [0, 90, 180, 360, 540, 800, 1070, 1520, 2060, 2500, 3040, 4020, 5010, 5990, 7060, 8050]

/-- One of the units that an engine plays. -/
structure Unit where
  pwm : List UInt8
  timeMsec : List Nat
  repeats : Nat
  deriving DecidableEq, Repr

structure Program where
  pauseStartMsec : Nat
  pauseEndMsec : Nat
  repeats : Nat
  units : List Unit
  deriving DecidableEq, Repr

def field (hi lo : Nat) (val : UInt8) : Nat :=
  ((fieldGet (genmask hi lo) val.toBitVec).getD 0).toNat

def time (hi lo : Nat) (val : UInt8) : Nat :=
  aeTimes.getD (field hi lo val) 0

/-- A unit by its eight registers. -/
def decodeUnit (regs : Nat → UInt8) : Unit where
  pwm := [regs 0, regs 1, regs 2, regs 3, regs 4]
  timeMsec := [time 3 0 (regs 5), time 7 4 (regs 5), time 3 0 (regs 6), time 7 4 (regs 6)]
  repeats := field 1 0 (regs 7)

/-- What an engine plays by its registers, from the first one on. -/
def decode (regs : Nat → UInt8) : Program where
  pauseStartMsec := time 7 4 (regs 0)
  pauseEndMsec := time 3 0 (regs 0)
  repeats := field 3 0 (regs 1)
  units := (List.range (field 5 4 (regs 1) + 1)).map fun i =>
    decodeUnit fun offset => regs (aeuOffset i + offset)

/-- No time that is supported is closer to the one that is asked for. -/
def Nearest (msec time : Nat) : Prop :=
  time ∈ aeTimes ∧ ∀ t ∈ aeTimes, Nat.dist msec time ≤ Nat.dist msec t

structure UnitPlays (unit : Unit) (aeuCfg : AeuConfig) : Prop where
  pwm : unit.pwm = aeuCfg.pwm.toList
  timeMsec : List.Forall₂ (fun time msec => Nearest (UInt16.toNat msec) time) unit.timeMsec
    aeuCfg.timeMsec.toList
  repeats : unit.repeats = aeuCfg.repeats

/-- The program is the configuration, with times as close as they get. -/
structure Plays (program : Program) (aeCfg : AeConfig) : Prop where
  pauseStartMsec : Nearest aeCfg.pauseStartMsec.toNat program.pauseStartMsec
  pauseEndMsec : Nearest aeCfg.pauseEndMsec.toNat program.pauseEndMsec
  repeats : program.repeats = aeCfg.repeats
  units : List.Forall₂ UnitPlays program.units (aeCfg.aeu.toList.take aeCfg.numAeu)

/-- The times from `lo` on and below `hi` are closest to the one of a code. -/
def Rounds (lo hi : Nat) (code : BitVec 8) : Prop :=
  code.toNat < 16 ∧ ∀ t ∈ aeTimes,
    (t < aeTimes.getD code.toNat 0 → t + aeTimes.getD code.toNat 0 ≤ 2 * lo) ∧
      (aeTimes.getD code.toNat 0 < t → 2 * hi ≤ t + aeTimes.getD code.toNat 0 + 1)

instance (lo hi : Nat) (code : BitVec 8) : Decidable (Rounds lo hi code) :=
  inferInstanceAs (Decidable (_ ∧ _))

def RoundsTo (msec : UInt16) (code : BitVec 8) : Prop :=
  code.toNat < 16 ∧ Nearest msec.toNat (aeTimes.getD code.toNat 0)

theorem roundsTo_of_rounds {lo hi : Nat} {code : BitVec 8} (hrounds : Rounds lo hi code)
    {msec : UInt16} (hlo : lo ≤ msec.toNat) (hhi : msec.toNat < hi) : RoundsTo msec code := by
  obtain ⟨hcode, htimes⟩ := hrounds
  have hmem : aeTimes.getD code.toNat 0 ∈ aeTimes := by
    rw [List.getD_eq_getElem aeTimes 0 hcode]
    exact List.getElem_mem hcode
  refine ⟨hcode, hmem, ?_⟩
  intro t ht
  obtain ⟨hlower, hupper⟩ := htimes t ht
  simp only [Nat.dist]
  omega

theorem roundsTo_ite {lo : Nat} {n : UInt16} {code rest : BitVec 8}
    (hrounds : Rounds lo n.toNat code) {msec : UInt16} (hlo : lo ≤ msec.toNat)
    (hrest : n.toNat ≤ msec.toNat → RoundsTo msec rest) :
    RoundsTo msec (if msec < n then code else rest) := by
  rcases Classical.em (msec < n) with hlt | hge
  · rw [if_pos hlt]
    exact roundsTo_of_rounds hrounds hlo (UInt16.lt_iff_toNat_lt.mp hlt)
  · rw [if_neg hge]
    apply hrest
    rwa [UInt16.lt_iff_toNat_lt, Nat.not_lt] at hge

theorem roundsTo_lp58xxAeTimeFromMsec (msec : UInt16) :
    RoundsTo msec (lp58xxAeTimeFromMsec msec) := by
  rw [lp58xxAeTimeFromMsec]
  have hlo := Nat.zero_le msec.toNat
  iterate 15
    apply roundsTo_ite (by decide) hlo
    clear hlo
    intro hlo
  exact roundsTo_of_rounds (by decide) hlo msec.toNat_lt

theorem field_fields {hi lo hi' lo' : Nat} (hlo : lo ≤ hi) (hhi : hi < 8) (hlo' : lo' ≤ hi')
    (hapart : hi' < lo) {value value' : BitVec 8} (hvalue : value.toNat < 2 ^ (hi + 1 - lo))
    (hvalue' : value'.toNat < 2 ^ (hi' + 1 - lo')) :
    field hi lo (fields hi lo hi' lo' value value') = value.toNat ∧
      field hi' lo' (fields hi lo hi' lo' value value') = value'.toNat := by
  have hdisjoint : (genmask hi' lo' : BitVec 8) &&& genmask hi lo = 0 :=
    genmask_and_genmask hapart
  constructor
  · simp only [field, fields]
    rw [fieldGet_fieldPrep_or hlo hhi hvalue (fieldPrep_and_of_disjoint hdisjoint value')]
    rfl
  · simp only [field, fields]
    rw [BitVec.or_comm, fieldGet_fieldPrep_or hlo' (by omega) hvalue'
      (fieldPrep_and_of_disjoint (by rw [BitVec.and_comm, hdisjoint]) value)]
    rfl

theorem time_fields (msec msec' : UInt16) :
    Nearest msec.toNat
        (time 7 4 (fields 7 4 3 0 (lp58xxAeTimeFromMsec msec) (lp58xxAeTimeFromMsec msec'))) ∧
      Nearest msec'.toNat
        (time 3 0 (fields 7 4 3 0 (lp58xxAeTimeFromMsec msec) (lp58xxAeTimeFromMsec msec'))) := by
  obtain ⟨hlt, hnear⟩ := roundsTo_lp58xxAeTimeFromMsec msec
  obtain ⟨hlt', hnear'⟩ := roundsTo_lp58xxAeTimeFromMsec msec'
  obtain ⟨hupper, hlower⟩ := @field_fields 7 4 3 0 (by decide) (by decide) (by decide) (by decide)
    _ _ hlt hlt'
  rw [time, time, hupper, hlower]
  exact ⟨hnear, hnear'⟩

/-- The registers from `base` on hold the bytes. -/
def Holds (regs : Nat → UInt8) (base : Nat) (bytes : List UInt8) : Prop :=
  ∀ i (hi : i < bytes.length), regs (base + i) = bytes[i]

theorem holds_append {regs : Nat → UInt8} {base : Nat} {first second : List UInt8} :
    Holds regs base (first ++ second) ↔
      Holds regs base first ∧ Holds regs (base + first.length) second := by
  constructor
  · intro h
    constructor
    · intro i hi
      rw [h i (by rw [List.length_append]; omega), List.getElem_append_left hi]
    · intro i hi
      rw [Nat.add_assoc, h (first.length + i) (by rw [List.length_append]; omega),
        List.getElem_append_right (Nat.le_add_right _ _)]
      simp only [Nat.add_sub_cancel_left]
  · rintro ⟨hfirst, hsecond⟩ i hi
    rcases Nat.lt_or_ge i first.length with hlt | hge
    · rw [List.getElem_append_left hlt]
      exact hfirst i hlt
    · rw [List.length_append] at hi
      rw [List.getElem_append_right hge, ← hsecond (i - first.length) (by omega)]
      congr 1
      omega

theorem holds_flatten {regs : Nat → UInt8} {base n : Nat} {parts : List (List UInt8)}
    (hlength : ∀ part ∈ parts, part.length = n) (h : Holds regs base parts.flatten) (i : Nat)
    (hi : i < parts.length) : Holds regs (base + i * n) parts[i] := by
  induction parts generalizing base i with
  | nil => exact absurd hi (Nat.not_lt_zero i)
  | cons part parts ih =>
      rw [List.flatten_cons, holds_append] at h
      obtain ⟨hpart, hrest⟩ := h
      cases i with
      | zero => simpa using hpart
      | succ i =>
          have hlen : part.length = n := hlength part List.mem_cons_self
          rw [hlen] at hrest
          have htail := ih (fun part hpart => hlength part (List.mem_cons_of_mem _ hpart)) hrest i
            (by simpa using hi)
          rw [List.getElem_cons_succ, Nat.succ_mul, Nat.add_comm (i * n), ← Nat.add_assoc]
          exact htail

/-- The eight bytes of a unit. -/
def aeuBytes (aeuCfg : AeuConfig) : List UInt8 :=
  aeuCfg.pwm.toList ++
    [fields 7 4 3 0 (lp58xxAeTimeFromMsec aeuCfg.timeMsec[1])
        (lp58xxAeTimeFromMsec aeuCfg.timeMsec[0]),
      fields 7 4 3 0 (lp58xxAeTimeFromMsec aeuCfg.timeMsec[3])
        (lp58xxAeTimeFromMsec aeuCfg.timeMsec[2]),
      ⟨fieldPrep (genmask 1 0) (BitVec.ofNat 8 aeuCfg.repeats)⟩]

theorem aeuBytes_length (aeuCfg : AeuConfig) : (aeuBytes aeuCfg).length = aeuSize := by
  simp [aeuBytes, aeuSize]

theorem lp58xxAeuConfigGenerate_eq (aeuCfg : AeuConfig) :
    lp58xxAeuConfigGenerate aeuCfg = .ok (aeuBytes aeuCfg) := by
  rw [lp58xxAeuConfigGenerate]
  exact if_neg (Fin.not_lt.mpr (Fin.le_last aeuCfg.repeats))

theorem toList_five {α : Type} (v : Vector α 5) : v.toList = [v[0], v[1], v[2], v[3], v[4]] := by
  apply List.ext_getElem (by simp)
  intro i hi _
  rw [Vector.length_toList] at hi
  interval_cases i <;> simp

theorem toList_four {α : Type} (v : Vector α 4) : v.toList = [v[0], v[1], v[2], v[3]] := by
  apply List.ext_getElem (by simp)
  intro i hi _
  rw [Vector.length_toList] at hi
  interval_cases i <;> simp

theorem holds_cons {regs : Nat → UInt8} {base : Nat} {byte : UInt8} {bytes : List UInt8} :
    Holds regs base (byte :: bytes) ↔ regs base = byte ∧ Holds regs (base + 1) bytes := by
  have hone : Holds regs base [byte] ↔ regs base = byte := by
    simp [Holds]
  rw [← List.singleton_append, holds_append, hone]
  rfl

theorem field_repeats (repeats : Fin 4) :
    field 1 0 ⟨fieldPrep (genmask 1 0) (BitVec.ofNat 8 repeats)⟩ = repeats := by
  have hvalue : (BitVec.ofNat 8 repeats).toNat = repeats := by
    rw [BitVec.toNat_ofNat]
    exact Nat.mod_eq_of_lt (by omega)
  simp only [field]
  rw [fieldGet_fieldPrep (by decide) (by decide) (by rw [hvalue]; exact repeats.isLt),
    Option.getD_some, hvalue]

theorem unitPlays_of_holds {regs : Nat → UInt8} {base : Nat} {aeuCfg : AeuConfig}
    (h : Holds regs base (aeuBytes aeuCfg)) :
    UnitPlays (decodeUnit fun offset => regs (base + offset)) aeuCfg := by
  simp only [aeuBytes, toList_five, List.cons_append, List.nil_append, holds_cons,
    Nat.add_assoc, Nat.reduceAdd] at h
  obtain ⟨h0, h1, h2, h3, h4, h5, h6, h7, -⟩ := h
  constructor
  · simp only [decodeUnit, Nat.add_zero, h0, h1, h2, h3, h4, toList_five]
  · obtain ⟨hsecond, hfirst⟩ := time_fields aeuCfg.timeMsec[1] aeuCfg.timeMsec[0]
    obtain ⟨hfourth, hthird⟩ := time_fields aeuCfg.timeMsec[3] aeuCfg.timeMsec[2]
    simp only [decodeUnit, h5, h6, toList_four]
    exact .cons hfirst (.cons hsecond (.cons hthird (.cons hfourth .nil)))
  · simp only [decodeUnit, h7, field_repeats]

/-- The bytes for an engine. -/
def aeBytes (aeCfg : AeConfig) : List UInt8 :=
  fields 7 4 3 0 (lp58xxAeTimeFromMsec aeCfg.pauseStartMsec)
      (lp58xxAeTimeFromMsec aeCfg.pauseEndMsec) ::
    fields 5 4 3 0 (BitVec.ofNat 8 (aeCfg.numAeu - 1)) (BitVec.ofNat 8 aeCfg.repeats) ::
      (aeCfg.aeu.toList.map aeuBytes).flatten

theorem mapM_lp58xxAeuConfigGenerate (aeu : List AeuConfig) :
    aeu.mapM lp58xxAeuConfigGenerate = .ok (aeu.map aeuBytes) := by
  induction aeu with
  | nil => rfl
  | cons aeuCfg aeu ih =>
      rw [List.mapM_cons, lp58xxAeuConfigGenerate_eq, ih]
      rfl

theorem lp58xxAeConfigGenerate_eq (aeCfg : AeConfig) :
    lp58xxAeConfigGenerate aeCfg =
      if aeCfg.numAeu = 0 then .error (-einval) else .ok (aeBytes aeCfg) := by
  have hrepeats : ¬ aeCfg.repeats > lp58xxAeRepeatInfinite :=
    Fin.not_lt.mpr (Fin.le_last aeCfg.repeats)
  have hnum : aeCfg.numAeu < 1 ∨ aeCfg.numAeu > 3 ↔ aeCfg.numAeu = 0 := by
    omega
  simp only [lp58xxAeConfigGenerate, if_neg hrepeats, hnum, mapM_lp58xxAeuConfigGenerate]
  rfl

theorem aeBytes_length (aeCfg : AeConfig) : (aeBytes aeCfg).length = aeSize := by
  have hunits (aeu : List AeuConfig) : (aeu.map aeuBytes).flatten.length = aeu.length * aeuSize := by
    induction aeu with
    | nil => rfl
    | cons aeuCfg aeu ih =>
        rw [List.map_cons, List.flatten_cons, List.length_append, ih, aeuBytes_length,
          List.length_cons, Nat.succ_mul, Nat.add_comm]
  rw [aeBytes, List.length_cons, List.length_cons, hunits, Vector.length_toList]
  rfl

theorem plays_of_holds {regs : Nat → UInt8} {base : Nat} {aeCfg : AeConfig}
    (hnum : aeCfg.numAeu ≠ 0) (h : Holds regs base (aeBytes aeCfg)) :
    Plays (decode fun offset => regs (base + offset)) aeCfg := by
  rw [aeBytes, holds_cons, holds_cons] at h
  obtain ⟨hpause, hplayback, hunits⟩ := h
  have hle : (aeCfg.numAeu : Nat) ≤ 3 := Nat.le_of_lt_succ aeCfg.numAeu.isLt
  have hpos : 1 ≤ (aeCfg.numAeu : Nat) := Nat.one_le_iff_ne_zero.mpr fun h => hnum (Fin.ext h)
  have hvalue : (BitVec.ofNat 8 ((aeCfg.numAeu : Nat) - 1)).toNat = (aeCfg.numAeu : Nat) - 1 := by
    rw [BitVec.toNat_ofNat]
    exact Nat.mod_eq_of_lt (by omega)
  have hvalue' : (BitVec.ofNat 8 aeCfg.repeats).toNat = aeCfg.repeats := by
    rw [BitVec.toNat_ofNat]
    exact Nat.mod_eq_of_lt (by omega)
  obtain ⟨hupper, hlower⟩ := @field_fields 5 4 3 0 (by decide) (by decide) (by decide) (by decide)
    (BitVec.ofNat 8 ((aeCfg.numAeu : Nat) - 1)) (BitVec.ofNat 8 aeCfg.repeats)
    (by rw [hvalue]; change _ < 4; omega) (by rw [hvalue']; exact aeCfg.repeats.isLt)
  obtain ⟨hstart, hend⟩ := time_fields aeCfg.pauseStartMsec aeCfg.pauseEndMsec
  constructor
  · simpa only [decode, Nat.add_zero, hpause] using hstart
  · simpa only [decode, Nat.add_zero, hpause] using hend
  · simp only [decode, hplayback, hlower, hvalue']
  · have hcount : (aeCfg.numAeu : Nat) - 1 + 1 = aeCfg.numAeu := Nat.sub_add_cancel hpos
    simp only [decode, hplayback, hupper, hvalue, hcount]
    rw [List.forall₂_iff_get]
    constructor
    · simpa using hle
    · intro i hi hi'
      rw [List.length_map, List.length_range] at hi
      have hin : i < (aeCfg.aeu.toList.map aeuBytes).length := by
        rw [List.length_map, Vector.length_toList]
        omega
      have hunit := holds_flatten (n := aeuSize) (by simp [aeuBytes_length]) hunits i hin
      have hbase : base + 1 + 1 + i * aeuSize = base + aeuOffset i := by
        rw [aeuOffset]
        omega
      rw [List.getElem_map, hbase] at hunit
      have hplays := unitPlays_of_holds hunit
      simp only [List.get_eq_getElem, List.getElem_map, List.getElem_range, List.getElem_take]
      simpa only [Nat.add_assoc] using hplays

/-- A configuration is refused exactly when it has no unit, and what is
generated for any other is what the engine plays, byte for byte. -/
theorem lp58xxAeConfigGenerate_plays (aeCfg : AeConfig) :
    (aeCfg.numAeu = 0 ∧ lp58xxAeConfigGenerate aeCfg = .error (-einval)) ∨
      (aeCfg.numAeu ≠ 0 ∧ ∃ buf, lp58xxAeConfigGenerate aeCfg = .ok buf ∧ buf.length = aeSize ∧
        ∀ regs base, Holds regs base buf →
          Plays (decode fun offset => regs (base + offset)) aeCfg) := by
  rw [lp58xxAeConfigGenerate_eq]
  rcases Classical.em (aeCfg.numAeu = 0) with hnum | hnum
  · exact Or.inl ⟨hnum, if_pos hnum⟩
  · right
    rw [if_neg hnum]
    exact ⟨hnum, _, rfl, aeBytes_length aeCfg, fun _ _ h => plays_of_holds hnum h⟩

/-- The part of the controller and of the bus in one transaction: the result, how
many bytes of a write that fails are taken, and what status registers hold. -/
structure Transfer where
  ret : Int
  taken : Nat
  status : Nat → UInt8
  ret_le : ret ≤ 0

/-- The registers, the number of transactions so far, and the commands to the
engines that reached the controller, by their registers. -/
structure Bus where
  regs : Nat → UInt8
  count : Nat
  commands : List Nat

/-- `led_info`, as far as the driver reads it. -/
structure LedInfo where
  index : UInt32
  numColors : UInt8

/-- `struct lp58xx_config`; a controller has 4 or 12 channels, and the buffer
for writes is as long as the device macro makes it. -/
structure Config where
  numChannels : UInt8
  ledInfos : List LedInfo
  numChannels_enum : numChannels = 4 ∨ numChannels = 12

def Config.writeBufLen (cfg : Config) : Nat :=
  max cfg.numChannels.toNat aeSize + 1

/-- The registers behind a write of `vals` from `reg` on. -/
def writeRegs (regs : Nat → UInt8) (reg : Nat) (vals : List UInt8) : Nat → UInt8 :=
  fun r => if reg ≤ r then (vals[r - reg]?).getD (regs r) else regs r

/-- A command takes effect by a write of its key. -/
def isCommand (reg : Nat) (val : UInt8) : Bool :=
  [(cmdStartAddr, 0xff), (cmdStopAddr, 0xaa), (cmdPauseAddr, 0x33), (cmdContinueAddr, 0xcc)].elem
    (reg, val)

/-- The commands in a write of `vals` from `reg` on. -/
def writtenCommands (reg : Nat) (vals : List UInt8) : List Nat :=
  ((vals.zipIdx reg).filter fun (val, r) => isCommand r val).map Prod.snd

section

variable (cfg : Config) (io : Nat → Transfer)

def i2cWrite (reg : Nat) (vals : List UInt8) (s : Bus) : Int × Bus :=
  let t := io s.count
  let taken := if t.ret < 0 then vals.take t.taken else vals
  (t.ret, ⟨writeRegs s.regs reg taken, s.count + 1, s.commands ++ writtenCommands reg taken⟩)

/-- The status registers, from 0x300 on, are not written by the driver. -/
def i2cRead (reg : Nat) (s : Bus) : Int × (Nat → UInt8) × Bus :=
  let t := io s.count
  (t.ret, fun i => if reg + i < 0x300 then s.regs (reg + i) else t.status (reg + i),
    ⟨s.regs, s.count + 1, s.commands⟩)

/-- `i2c_reg_update_byte`: nothing is written where nothing changes. -/
def i2cRegUpdateByte (reg : Nat) (mask value : BitVec 8) (s : Bus) : Int × Bus :=
  let (ret, old, s) := i2cRead io reg s
  if ret ≠ 0 then (ret, s)
  else
    let new : UInt8 := ⟨update mask value (old 0).toBitVec⟩
    if new = old 0 then (0, s) else i2cWrite io reg [new] s

def lp58xxRegWrite (reg : Nat) (val : UInt8) (s : Bus) : Int × Bus :=
  i2cWrite io reg [val] s

def lp58xxRegRead (reg : Nat) (s : Bus) : Int × UInt8 × Bus :=
  let (ret, buf, s) := i2cRead io reg s
  (ret, buf 0, s)

def lp58xxBurstWrite (reg : Nat) (buf : List UInt8) (s : Bus) : Int × Bus :=
  if buf.length + 1 > cfg.writeBufLen then (-einval, s) else i2cWrite io reg buf s

def lp58xxBurstRead (reg : Nat) (len : UInt8) (s : Bus) : Int × (Nat → UInt8) × Bus :=
  if len.toNat + 1 > cfg.writeBufLen then (-einval, fun _ => 0, s) else i2cRead io reg s

def lp58xxWriteChannelField (reg : Nat) (channel bits value : UInt8) (s : Bus) : Int × Bus :=
  if channel > cfg.numChannels then (-einval, s)
  else if ¬ (bits = 1 ∨ bits = 2 ∨ bits = 4 ∨ bits = 8) then (-einval, s)
  else
    let bit := channel * bits
    let shift := (bit % 8).toNat
    i2cRegUpdateByte io (reg + (bit / 8).toNat) (genmask (shift + bits.toNat - 1) shift)
      (value.toBitVec <<< shift) s

def lp58xxUpdateConfig (s : Bus) : Int × Bus :=
  let (ret, s) := lp58xxRegWrite io cmdUpdateAddr 0x55 s
  if ret < 0 then (ret, s)
  else
    let (ret, val, s) := lp58xxRegRead io tsdConfigStatusAddr s
    if ret < 0 then (ret, s)
    else if val &&& 0x01 ≠ 0 then (-einval, s)
    else (0, s)

def lp58xxAeConfigure (channel : UInt8) (aeCfg : AeConfig) (s : Bus) : Int × Bus :=
  if channel ≥ cfg.numChannels then (-einval, s)
  else
    match lp58xxAeConfigGenerate aeCfg with
    | .error ret => (ret, s)
    | .ok buf =>
        let (ret, s) := lp58xxBurstWrite cfg io (aeAddr channel.toNat) buf s
        if ret < 0 then (ret, s)
        else
          let (ret, s) := lp58xxWriteChannelField cfg io devConfig3Addr channel 1 1 s
          if ret < 0 then (ret, s) else lp58xxUpdateConfig io s

def lp58xxGetAutoPwm (startChannel numChannels : UInt8) (s : Bus) :
    Int × (Nat → UInt8) × Bus :=
  lp58xxBurstRead cfg io (autoPwmAddr startChannel.toNat) numChannels s

def lp58xxStart (s : Bus) : Int × Bus :=
  lp58xxRegWrite io cmdStartAddr 0xff s

def lp58xxStop (s : Bus) : Int × Bus :=
  lp58xxRegWrite io cmdStopAddr 0xaa s

def lp58xxPause (s : Bus) : Int × Bus :=
  lp58xxRegWrite io cmdPauseAddr 0x33 s

def lp58xxContinue (s : Bus) : Int × Bus :=
  lp58xxRegWrite io cmdContinueAddr 0xcc s

def lp58xxEnable (enable : Bool) (s : Bus) : Int × Bus :=
  lp58xxRegWrite io chipEnAddr enable.toUInt8 s

def lp58xxSetBrightness (led : UInt32) (value : UInt8) (s : Bus) : Int × Bus :=
  if led ≥ cfg.numChannels.toUInt32 then (-einval, s)
  else if value > 100 then (-einval, s)
  else
    let pwm := UInt8.ofNat (value.toNat * 0xff / 100)
    let (ret, s) := lp58xxRegWrite io (manualPwmAddr led.toNat) pwm s
    if ret < 0 then (ret, s)
    else
      let (ret, _, s) := lp58xxRegRead io lodStatus0Addr s
      if ret < 0 then (ret, s)
      else
        let (ret, _, s) := lp58xxRegRead io lsdStatus0Addr s
        if ret < 0 then (ret, s) else (0, s)

def lp58xxOn (led : UInt32) (s : Bus) : Int × Bus :=
  lp58xxSetBrightness cfg io led 100 s

def lp58xxOff (led : UInt32) (s : Bus) : Int × Bus :=
  lp58xxSetBrightness cfg io led 0 s

/-- The delays are cut to 16 bits, and the LED to the 8 bits of a channel. -/
def blinkConfig (delayOn delayOff : UInt32) : AeConfig :=
  let zero : AeuConfig := ⟨#v[0, 0, 0, 0, 0], #v[0, 0, 0, 0], 0⟩
  ⟨0, 0, 1, 1, #v[⟨#v[255, 255, 0, 0, 0], #v[delayOn.toUInt16, 0, delayOff.toUInt16, 0],
    lp58xxAeuRepeatInfinite⟩, zero, zero]⟩

def lp58xxBlink (led delayOn delayOff : UInt32) (s : Bus) : Int × Bus :=
  let (ret, s) := lp58xxAeConfigure cfg io led.toUInt8 (blinkConfig delayOn delayOff) s
  if ret < 0 then (ret, s) else lp58xxStart io s

/-- The register and the length are cut to 16 and 8 bits. -/
def lp58xxWriteChannels (startChannel numChannels : UInt32) (buf : Nat → UInt8) (s : Bus) :
    Int × Bus :=
  if startChannel + numChannels > cfg.numChannels.toUInt32 then (-einval, s)
  else
    lp58xxBurstWrite cfg io (0x40 + startChannel).toUInt16.toNat
      ((List.range numChannels.toUInt8.toNat).map buf) s

def lp58xxSetColor (led : UInt32) (numColors : UInt8) (color : Nat → UInt8) (s : Bus) :
    Int × Bus :=
  match cfg.ledInfos[led.toNat]? with
  | none => (-enodev, s)
  | some ledInfo =>
      if numColors ≠ ledInfo.numColors then (-einval, s)
      else lp58xxWriteChannels cfg io ledInfo.index numColors.toUInt32 color s

/-- The registers of the condition are as before. -/
def Kept (P : Nat → Prop) (s s' : Bus) : Prop :=
  ∀ r, P r → s'.regs r = s.regs r

theorem Kept.refl (P : Nat → Prop) (s : Bus) : Kept P s s :=
  fun _ _ => rfl

theorem Kept.trans {P : Nat → Prop} {s s' s'' : Bus} (h : Kept P s s') (h' : Kept P s' s'') :
    Kept P s s'' :=
  fun r hr => (h' r hr).trans (h r hr)

theorem Kept.mono {P Q : Nat → Prop} {s s' : Bus} (h : Kept P s s') (hQ : ∀ r, Q r → P r) :
    Kept Q s s' :=
  fun r hr => h r (hQ r hr)

theorem i2cWrite_kept (reg : Nat) (vals : List UInt8) (s : Bus) :
    Kept (fun r => r < reg ∨ reg + vals.length ≤ r) s (i2cWrite io reg vals s).2 := by
  intro r hr
  simp only [i2cWrite, writeRegs]
  rcases hr with hbelow | habove
  · exact if_neg (Nat.not_le.mpr hbelow)
  · rw [if_pos (by omega), List.getElem?_eq_none, Option.getD_none]
    split
    · rw [List.length_take]
      omega
    · omega

theorem i2cWrite_holds {reg : Nat} {vals : List UInt8} {s : Bus}
    (hok : 0 ≤ (i2cWrite io reg vals s).1) :
    Holds (i2cWrite io reg vals s).2.regs reg vals := by
  intro i hi
  have hret : ¬ (io s.count).ret < 0 := Int.not_lt.mpr hok
  simp only [i2cWrite, if_neg hret, writeRegs]
  rw [if_pos (Nat.le_add_right _ _), Nat.add_sub_cancel_left, List.getElem?_eq_getElem hi,
    Option.getD_some]

theorem lp58xxBurstWrite_kept (reg : Nat) (buf : List UInt8) (s : Bus) :
    Kept (fun r => r < reg ∨ reg + buf.length ≤ r) s (lp58xxBurstWrite cfg io reg buf s).2 := by
  rw [lp58xxBurstWrite]
  split
  · exact Kept.refl _ s
  · exact i2cWrite_kept io reg buf s

theorem lp58xxBurstWrite_holds {reg : Nat} {buf : List UInt8} {s : Bus}
    (hok : 0 ≤ (lp58xxBurstWrite cfg io reg buf s).1) :
    Holds (lp58xxBurstWrite cfg io reg buf s).2.regs reg buf := by
  rw [lp58xxBurstWrite] at hok ⊢
  split at hok
  · change 0 ≤ -einval at hok
    exact absurd hok (by decide)
  · rename_i hfits
    rw [if_neg hfits]
    exact i2cWrite_holds io hok

theorem lp58xxStart_commands {s : Bus} (hok : 0 ≤ (lp58xxStart io s).1) :
    (lp58xxStart io s).2.commands = s.commands ++ [cmdStartAddr] := by
  have hret : ¬ (io s.count).ret < 0 := Int.not_lt.mpr hok
  simp only [lp58xxStart, lp58xxRegWrite, i2cWrite, if_neg hret]
  rfl

/-- No register of an engine or of a mode. -/
def Elsewhere (r : Nat) : Prop :=
  r < devConfig3Addr ∨ (devConfig3Addr + 1 < r ∧ r < aeAddr 0)

instance (r : Nat) : Decidable (Elsewhere r) :=
  inferInstanceAs (Decidable (_ ∨ _))

/-- Only registers elsewhere are written. -/
def Apart (s s' : Bus) : Prop :=
  Kept (fun r => ¬ Elsewhere r) s s'

theorem i2cWrite_apart {reg : Nat} {vals : List UInt8}
    (hreg : ∀ i < vals.length, Elsewhere (reg + i)) (s : Bus) :
    Apart s (i2cWrite io reg vals s).2 := by
  apply (i2cWrite_kept io reg vals s).mono
  intro r hr
  by_contra hin
  apply hr
  have helsewhere := hreg (r - reg) (by omega)
  rwa [Nat.add_sub_cancel' (by omega)] at helsewhere

theorem lp58xxRegWrite_apart {reg : Nat} (hreg : Elsewhere reg) (val : UInt8) (s : Bus) :
    Apart s (lp58xxRegWrite io reg val s).2 := by
  apply i2cWrite_apart io _ s
  intro i hi
  rw [List.length_singleton] at hi
  rwa [Nat.lt_one_iff.mp hi, Nat.add_zero]

theorem lp58xxUpdateConfig_apart (s : Bus) : Apart s (lp58xxUpdateConfig io s).2 := by
  have hwrite := lp58xxRegWrite_apart io (by decide : Elsewhere cmdUpdateAddr) 0x55 s
  -- What follows is a read.
  simp only [lp58xxUpdateConfig]
  repeat' split
  all_goals exact hwrite

/-- The channel is in autonomous mode. -/
def autonomous (regs : Nat → UInt8) (ch : Nat) : Bool :=
  (regs (devConfig3Addr + ch / 8)).toBitVec.getLsbD (ch % 8)

/-- The registers with the bit of a channel set, when `done`. -/
def setAutonomous (regs : Nat → UInt8) (ch : Nat) (done : Bool) : Nat → UInt8 :=
  fun r => if done ∧ r = devConfig3Addr + ch / 8 then
      ⟨update (genmask (ch % 8) (ch % 8)) (1#8 <<< (ch % 8)) (regs r).toBitVec⟩
    else regs r

theorem i2cWrite_singleton (reg : Nat) (val : UInt8) (s : Bus) :
    ∃ done : Bool, (0 ≤ (i2cWrite io reg [val] s).1 → done = true) ∧
      (i2cWrite io reg [val] s).2.regs = fun r => if done ∧ r = reg then val else s.regs r := by
  have hwritten : writeRegs s.regs reg [val] = fun r => if r = reg then val else s.regs r := by
    funext r
    rcases Nat.lt_trichotomy r reg with hlt | rfl | hgt
    · rw [writeRegs, if_neg (Nat.not_le.mpr hlt), if_neg (Nat.ne_of_lt hlt)]
    · simp [writeRegs]
    · rw [writeRegs, if_pos (Nat.le_of_lt hgt), if_neg (Nat.ne_of_gt hgt),
        List.getElem?_eq_none (by rw [List.length_singleton]; omega), Option.getD_none]
  have hnone : writeRegs s.regs reg [] = s.regs := by
    funext r
    simp [writeRegs]
  simp only [i2cWrite]
  rcases lt_or_ge (io s.count).ret 0 with hfail | hok
  · rw [if_pos hfail]
    cases (io s.count).taken with
    | zero =>
        refine ⟨false, fun h => absurd hfail (Int.not_lt.mpr h), ?_⟩
        rw [List.take_zero, hnone]
        simp
    | succ k =>
        refine ⟨true, fun _ => rfl, ?_⟩
        rw [List.take_succ_cons, List.take_nil, hwritten]
        simp
  · rw [if_neg (Int.not_lt.mpr hok)]
    refine ⟨true, fun _ => rfl, ?_⟩
    rw [hwritten]
    simp

theorem i2cRegUpdateByte_regs {reg : Nat} (hreg : reg < 0x300) (mask value : BitVec 8) (s : Bus) :
    ∃ done : Bool, (0 ≤ (i2cRegUpdateByte io reg mask value s).1 → done = true) ∧
      (i2cRegUpdateByte io reg mask value s).2.regs =
        fun r => if done ∧ r = reg then ⟨update mask value (s.regs r).toBitVec⟩ else s.regs r := by
  have hread : (i2cRead io reg s).2.1 0 = s.regs reg := by
    simp only [i2cRead]
    exact if_pos hreg
  simp only [i2cRegUpdateByte]
  split
  · rename_i hret
    refine ⟨false, ?_, ?_⟩
    · intro hok
      have hle : (i2cRead io reg s).1 ≤ 0 := (io s.count).ret_le
      omega
    · funext r
      rw [if_neg fun h => Bool.false_ne_true h.1]
      rfl
  · rw [hread]
    split
    · rename_i heq
      refine ⟨true, fun _ => rfl, ?_⟩
      funext r
      rcases Classical.em (r = reg) with rfl | hne
      · rw [if_pos ⟨rfl, rfl⟩, heq]
        rfl
      · rw [if_neg fun h => hne h.2]
        rfl
    · obtain ⟨done, hdone, hregs⟩ := i2cWrite_singleton io reg
        ⟨update mask value (s.regs reg).toBitVec⟩ (i2cRead io reg s).2.2
      refine ⟨done, hdone, ?_⟩
      rw [hregs]
      funext r
      rcases Classical.em (done = true ∧ r = reg) with ⟨htrue, rfl⟩ | hnot
      · rw [if_pos ⟨htrue, rfl⟩, if_pos ⟨htrue, rfl⟩]
      · rw [if_neg hnot, if_neg hnot]
        rfl

theorem lp58xxWriteChannelField_regs {channel : UInt8} (hchannel : channel < cfg.numChannels)
    (s : Bus) :
    ∃ done : Bool,
      (0 ≤ (lp58xxWriteChannelField cfg io devConfig3Addr channel 1 1 s).1 → done = true) ∧
      (lp58xxWriteChannelField cfg io devConfig3Addr channel 1 1 s).2.regs =
        setAutonomous s.regs channel.toNat done := by
  have hfits : ¬ channel > cfg.numChannels := by
    rw [gt_iff_lt, UInt8.not_lt]
    exact UInt8.le_of_lt hchannel
  have hdiv : (channel / 8).toNat = channel.toNat / 8 := UInt8.toNat_div _ _
  have hmod : (channel % 8).toNat = channel.toNat % 8 := UInt8.toNat_mod _ _
  have hreg : devConfig3Addr + channel.toNat / 8 < 0x300 := by
    have hlt := channel.toNat_lt
    rw [devConfig3Addr]
    omega
  rw [lp58xxWriteChannelField, if_neg hfits, if_neg (by decide), UInt8.mul_one]
  simp only [hdiv, hmod]
  exact i2cRegUpdateByte_regs io hreg _ _ s

theorem autonomous_setAutonomous (regs : Nat → UInt8) (ch ch' : Nat) (done : Bool) :
    autonomous (setAutonomous regs ch done) ch' =
      if done ∧ ch' = ch then true else autonomous regs ch' := by
  simp only [autonomous, setAutonomous]
  rcases Classical.em (done = true ∧ devConfig3Addr + ch' / 8 = devConfig3Addr + ch / 8) with
    ⟨hdone, hreg⟩ | hnot
  · rw [if_pos ⟨hdone, hreg⟩]
    change (update _ _ _).getLsbD _ = _
    rw [getLsbD_update, getLsbD_genmask]
    have hbit : ch' % 8 < 8 := Nat.mod_lt _ (by decide)
    rcases Classical.em (ch' = ch) with rfl | hne
    · rw [if_pos (by simpa using hbit), if_pos ⟨hdone, rfl⟩]
      rw [BitVec.getLsbD_shiftLeft]
      simp [hbit]
    · rw [if_neg (by rw [decide_eq_true_eq]; omega), if_neg fun h => hne h.2]
  · rw [if_neg hnot, if_neg]
    rintro ⟨hdone, rfl⟩
    exact hnot ⟨hdone, rfl⟩

theorem setAutonomous_of_ne {regs : Nat → UInt8} {ch : Nat} (done : Bool) {r : Nat}
    (hr : r ≠ devConfig3Addr + ch / 8) : setAutonomous regs ch done r = regs r :=
  if_neg fun h => hr h.2

theorem autonomous_of_kept {P : Nat → Prop} {s s' : Bus} (hkept : Kept P s s') {ch : Nat}
    (hP : P (devConfig3Addr + ch / 8)) : autonomous s'.regs ch = autonomous s.regs ch := by
  rw [autonomous, autonomous, hkept _ hP]

theorem holds_of_kept {P : Nat → Prop} {s s' : Bus} (hkept : Kept P s s') {base : Nat}
    {bytes : List UInt8} (hP : ∀ i < bytes.length, P (base + i))
    (h : Holds s.regs base bytes) : Holds s'.regs base bytes := by
  intro i hi
  rw [hkept _ (hP i hi)]
  exact h i hi

theorem Apart.autonomous_eq {s s' : Bus} (hapart : Apart s s') {ch : Nat} (hch : ch < 12) :
    autonomous s'.regs ch = autonomous s.regs ch := by
  apply autonomous_of_kept hapart
  rw [Elsewhere, devConfig3Addr, aeAddr]
  omega

theorem Apart.holds {s s' : Bus} (hapart : Apart s s') {ch : Nat} {bytes : List UInt8}
    (h : Holds s.regs (aeAddr ch) bytes) : Holds s'.regs (aeAddr ch) bytes := by
  apply holds_of_kept hapart _ h
  intro i _
  rw [Elsewhere, devConfig3Addr, aeAddr, aeAddr]
  omega

theorem Config.numChannels_le : cfg.numChannels.toNat ≤ 12 := by
  rcases cfg.numChannels_enum with h | h
  · rw [h]
    decide
  · rw [h]
    decide

/-- A register of the engine of a channel. -/
def InEngine (ch r : Nat) : Prop :=
  aeAddr ch ≤ r ∧ r < aeAddr ch + aeSize

theorem not_inEngine_of_inEngine {ch ch' r : Nat} (hne : ch ≠ ch') (hr : InEngine ch' r) :
    ¬ InEngine ch r := by
  rw [InEngine, aeAddr, aeSize] at hr ⊢
  omega

/-- What `lp58xx_ae_configure` does and leaves alone, with its result. -/
structure Configured (channel : UInt8) (aeCfg : AeConfig) (ret : Int) (s s' : Bus) : Prop where
  kept : Kept (fun r => ¬ InEngine channel.toNat r ∧ ¬ Elsewhere r ∧
    r ≠ devConfig3Addr + channel.toNat / 8) s s'
  mode : ∀ ch < 12, ch ≠ channel.toNat → autonomous s'.regs ch = autonomous s.regs ch
  done : 0 ≤ ret → channel < cfg.numChannels ∧ aeCfg.numAeu ≠ 0 ∧
    Holds s'.regs (aeAddr channel.toNat) (aeBytes aeCfg) ∧
      autonomous s'.regs channel.toNat = true

theorem configured_refused {channel : UInt8} {aeCfg : AeConfig} {ret : Int} (hret : ret < 0)
    (s : Bus) : Configured cfg channel aeCfg ret s s where
  kept := Kept.refl _ s
  mode _ _ _ := rfl
  done hok := absurd hret (Int.not_lt.mpr hok)

theorem lp58xxBurstWrite_engine (channel : UInt8) (aeCfg : AeConfig) (s : Bus) :
    let r := lp58xxBurstWrite cfg io (aeAddr channel.toNat) (aeBytes aeCfg) s
    Kept (fun r => ¬ InEngine channel.toNat r) s r.2 ∧
      (∀ ch < 12, autonomous r.2.regs ch = autonomous s.regs ch) ∧
      (0 ≤ r.1 → Holds r.2.regs (aeAddr channel.toNat) (aeBytes aeCfg)) := by
  have hburst := lp58xxBurstWrite_kept cfg io (aeAddr channel.toNat) (aeBytes aeCfg) s
  rw [aeBytes_length] at hburst
  have hkept : Kept (fun r => ¬ InEngine channel.toNat r) s
      (lp58xxBurstWrite cfg io (aeAddr channel.toNat) (aeBytes aeCfg) s).2 := by
    apply hburst.mono
    intro r hr
    rw [InEngine] at hr
    omega
  refine ⟨hkept, ?_, lp58xxBurstWrite_holds cfg io⟩
  intro ch hch
  apply autonomous_of_kept hkept
  rw [InEngine, aeAddr, devConfig3Addr]
  omega

theorem lp58xxWriteChannelField_mode {channel : UInt8} (hchannel : channel < cfg.numChannels)
    (s : Bus) :
    let r := lp58xxWriteChannelField cfg io devConfig3Addr channel 1 1 s
    Kept (fun r => r ≠ devConfig3Addr + channel.toNat / 8) s r.2 ∧
      (∀ ch, ch ≠ channel.toNat → autonomous r.2.regs ch = autonomous s.regs ch) ∧
      (0 ≤ r.1 → autonomous r.2.regs channel.toNat = true) := by
  obtain ⟨done, hdone, hregs⟩ := lp58xxWriteChannelField_regs cfg io hchannel s
  refine ⟨?_, ?_, ?_⟩
  · intro r hr
    rw [hregs, setAutonomous_of_ne done hr]
  · intro ch hne
    rw [hregs, autonomous_setAutonomous, if_neg fun h => hne h.2]
  · intro hok
    rw [hregs, autonomous_setAutonomous, if_pos ⟨hdone hok, rfl⟩]

theorem lp58xxAeConfigure_configured (channel : UInt8) (aeCfg : AeConfig) (s : Bus) :
    Configured cfg channel aeCfg (lp58xxAeConfigure cfg io channel aeCfg s).1 s
      (lp58xxAeConfigure cfg io channel aeCfg s).2 := by
  rw [lp58xxAeConfigure, lp58xxAeConfigGenerate_eq]
  rcases Classical.em (channel ≥ cfg.numChannels) with hout | hin
  · rw [if_pos hout]
    exact configured_refused cfg neg_einval s
  rw [if_neg hin]
  rcases Classical.em (aeCfg.numAeu = 0) with hnum | hnum
  · rw [if_pos hnum]
    exact configured_refused cfg neg_einval s
  simp only [if_neg hnum]
  have hchannel : channel < cfg.numChannels := UInt8.not_le.mp hin
  have hlt : channel.toNat < 12 :=
    Nat.lt_of_lt_of_le (UInt8.lt_iff_toNat_lt.mp hchannel) cfg.numChannels_le
  -- The engine is written first.
  obtain ⟨hkept₁, hmode₁, hholds⟩ := lp58xxBurstWrite_engine cfg io channel aeCfg s
  generalize lp58xxBurstWrite cfg io (aeAddr channel.toNat) (aeBytes aeCfg) s = burst at *
  obtain ⟨ret, s₁⟩ := burst
  simp only at hkept₁ hmode₁ hholds ⊢
  split
  · rename_i hret
    exact ⟨hkept₁.mono fun r hr => hr.1, fun ch hch _ => hmode₁ ch hch,
      fun hok => absurd hret (Int.not_lt.mpr hok)⟩
  rename_i hok
  -- Then the mode of the channel.
  obtain ⟨hkept₂, hmode₂, hauto⟩ := lp58xxWriteChannelField_mode cfg io hchannel s₁
  generalize lp58xxWriteChannelField cfg io devConfig3Addr channel 1 1 s₁ = field at *
  obtain ⟨ret, s₂⟩ := field
  simp only at hkept₂ hmode₂ hauto ⊢
  have hkept : Kept (fun r => ¬ InEngine channel.toNat r ∧ ¬ Elsewhere r ∧
      r ≠ devConfig3Addr + channel.toNat / 8) s s₂ :=
    (hkept₁.mono fun r hr => hr.1).trans (hkept₂.mono fun r hr => hr.2.2)
  have hmode (ch : Nat) (hch : ch < 12) (hne : ch ≠ channel.toNat) :
      autonomous s₂.regs ch = autonomous s.regs ch :=
    (hmode₂ ch hne).trans (hmode₁ ch hch)
  split
  · rename_i hret
    exact ⟨hkept, hmode, fun hok => absurd hret (Int.not_lt.mpr hok)⟩
  rename_i hok₂
  -- The last step applies both.
  have hapart := lp58xxUpdateConfig_apart io s₂
  refine ⟨hkept.trans (hapart.mono fun r hr => hr.2.1), ?_, ?_⟩
  · intro ch hch hne
    rw [hapart.autonomous_eq hch, hmode ch hch hne]
  · intro _
    refine ⟨hchannel, hnum, hapart.holds ?_, ?_⟩
    · apply holds_of_kept hkept₂ _ (hholds (Int.not_lt.mp hok))
      intro i _
      rw [aeAddr, devConfig3Addr]
      omega
    · rw [hapart.autonomous_eq hlt, hauto (Int.not_lt.mp hok₂)]

theorem lp58xxBlink_configured (led delayOn delayOff : UInt32) (s : Bus) :
    Configured cfg led.toUInt8 (blinkConfig delayOn delayOff)
      (lp58xxBlink cfg io led delayOn delayOff s).1 s
      (lp58xxBlink cfg io led delayOn delayOff s).2 := by
  have h := lp58xxAeConfigure_configured cfg io led.toUInt8 (blinkConfig delayOn delayOff) s
  simp only [lp58xxBlink]
  split
  · exact h
  rename_i hok
  have hapart := lp58xxRegWrite_apart io (by decide : Elsewhere cmdStartAddr) 0xff
    (lp58xxAeConfigure cfg io led.toUInt8 (blinkConfig delayOn delayOff) s).2
  obtain ⟨hchannel, hnum, hholds, hauto⟩ := h.done (Int.not_lt.mp hok)
  have hlt : led.toUInt8.toNat < 12 :=
    Nat.lt_of_lt_of_le (UInt8.lt_iff_toNat_lt.mp hchannel) cfg.numChannels_le
  constructor
  · exact h.kept.trans (hapart.mono fun r hr => hr.2.1)
  · intro ch hch hne
    exact (hapart.autonomous_eq hch).trans (h.mode ch hch hne)
  · intro _
    exact ⟨hchannel, hnum, hapart.holds hholds, (hapart.autonomous_eq hlt).trans hauto⟩

theorem lp58xxSetBrightness_apart (led : UInt32) (value : UInt8) (s : Bus) :
    Apart s (lp58xxSetBrightness cfg io led value s).2 := by
  rw [lp58xxSetBrightness]
  split
  · exact Kept.refl _ s
  rename_i hin
  split
  · exact Kept.refl _ s
  have hled : led.toNat < 12 := by
    rw [ge_iff_le, UInt32.not_le, UInt32.lt_iff_toNat_lt] at hin
    exact Nat.lt_of_lt_of_le hin cfg.numChannels_le
  have hreg : Elsewhere (manualPwmAddr led.toNat) := by
    right
    rw [manualPwmAddr, devConfig3Addr, aeAddr]
    omega
  have hwrite := lp58xxRegWrite_apart io hreg (UInt8.ofNat (value.toNat * 0xff / 100)) s
  -- What follows are reads.
  simp only
  repeat' split
  all_goals exact hwrite

/-- A call of `write_channels` for which the sum of its arguments does not wrap
around. -/
def NoWrap (startChannel numChannels : UInt32) : Prop :=
  startChannel.toNat + numChannels.toNat < 2 ^ 32

theorem lp58xxWriteChannels_apart {startChannel numChannels : UInt32}
    (hwrap : NoWrap startChannel numChannels) (buf : Nat → UInt8) (s : Bus) :
    Apart s (lp58xxWriteChannels cfg io startChannel numChannels buf s).2 := by
  rw [lp58xxWriteChannels]
  split
  · exact Kept.refl _ s
  rename_i hfits
  have hle : startChannel.toNat + numChannels.toNat ≤ 12 := by
    rw [gt_iff_lt, UInt32.not_lt, UInt32.le_iff_toNat_le, UInt32.toNat_add,
      Nat.mod_eq_of_lt hwrap] at hfits
    exact Nat.le_trans hfits cfg.numChannels_le
  have hreg : (0x40 + startChannel).toUInt16.toNat = 0x40 + startChannel.toNat := by
    rw [UInt32.toNat_toUInt16, UInt32.toNat_add]
    change (64 + startChannel.toNat) % 4294967296 % 65536 = _
    omega
  have hlen : numChannels.toUInt8.toNat ≤ 12 - startChannel.toNat := by
    rw [UInt32.toNat_toUInt8]
    omega
  rw [lp58xxBurstWrite]
  split
  · exact Kept.refl _ s
  · apply i2cWrite_apart io _ s
    intro i hi
    rw [List.length_map, List.length_range] at hi
    right
    rw [hreg, devConfig3Addr, aeAddr]
    omega

end

/-- A call of the driver's interface. -/
inductive Call where
  | aeConfigure (channel : UInt8) (aeCfg : AeConfig)
  | getAutoPwm (startChannel numChannels : UInt8)
  | start
  | stop
  | pause
  | continue
  | enable (enable : Bool)
  | on (led : UInt32)
  | off (led : UInt32)
  | setBrightness (led : UInt32) (value : UInt8)
  | blink (led delayOn delayOff : UInt32)
  | writeChannels (startChannel numChannels : UInt32) (buf : Nat → UInt8)
  | setColor (led : UInt32) (numColors : UInt8) (color : Nat → UInt8)

def Call.result (cfg : Config) (io : Nat → Transfer) (s : Bus) : Call → Int × Bus
  | .aeConfigure channel aeCfg => lp58xxAeConfigure cfg io channel aeCfg s
  | .getAutoPwm startChannel numChannels =>
      let (ret, _, s) := lp58xxGetAutoPwm cfg io startChannel numChannels s
      (ret, s)
  | .start => lp58xxStart io s
  | .stop => lp58xxStop io s
  | .pause => lp58xxPause io s
  | .continue => lp58xxContinue io s
  | .enable val => lp58xxEnable io val s
  | .on led => lp58xxOn cfg io led s
  | .off led => lp58xxOff cfg io led s
  | .setBrightness led value => lp58xxSetBrightness cfg io led value s
  | .blink led delayOn delayOff => lp58xxBlink cfg io led delayOn delayOff s
  | .writeChannels startChannel numChannels buf =>
      lp58xxWriteChannels cfg io startChannel numChannels buf s
  | .setColor led numColors color => lp58xxSetColor cfg io led numColors color s

/-- The engine that a call configures. -/
def Call.configures : Call → Option (UInt8 × AeConfig)
  | .aeConfigure channel aeCfg => some (channel, aeCfg)
  | .blink led delayOn delayOff => some (led.toUInt8, blinkConfig delayOn delayOff)
  | _ => none

/-- The arguments of a call do not wrap around. -/
def Call.NoWrap (cfg : Config) : Call → Prop
  | .writeChannels startChannel numChannels _ => Lp58xxEngine.NoWrap startChannel numChannels
  | .setColor led numColors _ => ∀ ledInfo, cfg.ledInfos[led.toNat]? = some ledInfo →
      Lp58xxEngine.NoWrap ledInfo.index numColors.toUInt32
  | _ => True

theorem Call.apart_of_configures_eq_none {cfg : Config} (io : Nat → Transfer) {call : Call}
    (hnone : call.configures = none) (hwrap : call.NoWrap cfg) (s : Bus) :
    Apart s (call.result cfg io s).2 := by
  cases call with
  | aeConfigure channel aeCfg => cases hnone
  | blink led delayOn delayOff => cases hnone
  | getAutoPwm startChannel numChannels =>
      simp only [Call.result, lp58xxGetAutoPwm, lp58xxBurstRead]
      split
      · exact Kept.refl _ s
      · exact Kept.refl _ s
  | start => exact lp58xxRegWrite_apart io (by decide : Elsewhere cmdStartAddr) _ s
  | stop => exact lp58xxRegWrite_apart io (by decide : Elsewhere cmdStopAddr) _ s
  | pause => exact lp58xxRegWrite_apart io (by decide : Elsewhere cmdPauseAddr) _ s
  | «continue» => exact lp58xxRegWrite_apart io (by decide : Elsewhere cmdContinueAddr) _ s
  | enable val => exact lp58xxRegWrite_apart io (by decide : Elsewhere chipEnAddr) _ s
  | on led => exact lp58xxSetBrightness_apart cfg io led 100 s
  | off led => exact lp58xxSetBrightness_apart cfg io led 0 s
  | setBrightness led value => exact lp58xxSetBrightness_apart cfg io led value s
  | writeChannels startChannel numChannels buf =>
      exact lp58xxWriteChannels_apart cfg io hwrap buf s
  | setColor led numColors color =>
      simp only [Call.result, lp58xxSetColor]
      split
      · exact Kept.refl _ s
      · rename_i ledInfo hled
        split
        · exact Kept.refl _ s
        · exact lp58xxWriteChannels_apart cfg io (hwrap ledInfo hled) color s

/-- The controller, with the configuration that each channel was last given by a
call that succeeded. -/
structure Tracked where
  bus : Bus
  configs : Nat → Option AeConfig

def step (cfg : Config) (io : Nat → Transfer) (s : Tracked) (call : Call) : Tracked :=
  let (ret, bus) := call.result cfg io s.bus
  match call.configures with
  | none => ⟨bus, s.configs⟩
  | some (channel, aeCfg) =>
      ⟨bus, Function.update s.configs channel.toNat (if ret < 0 then none else some aeCfg)⟩

/-- The registers of a channel that was given a configuration. -/
structure Configures (regs : Nat → UInt8) (cfg : Config) (ch : Nat) (aeCfg : AeConfig) : Prop where
  lt : ch < cfg.numChannels.toNat
  numAeu : aeCfg.numAeu ≠ 0
  holds : Holds regs (aeAddr ch) (aeBytes aeCfg)
  auto : autonomous regs ch = true

def Coherent (cfg : Config) (s : Tracked) : Prop :=
  ∀ ch aeCfg, s.configs ch = some aeCfg → Configures s.bus.regs cfg ch aeCfg

theorem step_coherent {cfg : Config} {io : Nat → Transfer} {s : Tracked} {call : Call}
    (hs : Coherent cfg s) (hwrap : call.NoWrap cfg) : Coherent cfg (step cfg io s call) := by
  intro ch aeCfg hch
  rw [step] at hch ⊢
  cases hconfigures : call.configures with
  | none =>
      simp only [hconfigures] at hch ⊢
      have hapart := call.apart_of_configures_eq_none io hconfigures hwrap s.bus
      have h := hs ch aeCfg hch
      have hlt : ch < 12 := Nat.lt_of_lt_of_le h.lt cfg.numChannels_le
      exact ⟨h.lt, h.numAeu, hapart.holds h.holds, (hapart.autonomous_eq hlt).trans h.auto⟩
  | some configures =>
      obtain ⟨channel, aeCfg'⟩ := configures
      simp only [hconfigures] at hch ⊢
      have hconfigured : Configured cfg channel aeCfg' (call.result cfg io s.bus).1 s.bus
          (call.result cfg io s.bus).2 := by
        cases call with
        | aeConfigure channel aeCfg =>
            cases hconfigures
            exact lp58xxAeConfigure_configured cfg io channel aeCfg' s.bus
        | blink led delayOn delayOff =>
            cases hconfigures
            exact lp58xxBlink_configured cfg io led delayOn delayOff s.bus
        | _ => cases hconfigures
      rcases Classical.em (ch = channel.toNat) with rfl | hne
      · rw [Function.update_self] at hch
        rcases lt_or_ge (call.result cfg io s.bus).1 0 with hret | hret
        · rw [if_pos hret] at hch
          cases hch
        · rw [if_neg (Int.not_lt.mpr hret)] at hch
          cases hch
          obtain ⟨hchannel, hnum, hholds, hauto⟩ := hconfigured.done hret
          exact ⟨UInt8.lt_iff_toNat_lt.mp hchannel, hnum, hholds, hauto⟩
      · rw [Function.update_of_ne hne] at hch
        have h := hs ch aeCfg hch
        have hlt : ch < 12 := Nat.lt_of_lt_of_le h.lt cfg.numChannels_le
        have hholds : Holds (call.result cfg io s.bus).2.regs (aeAddr ch) (aeBytes aeCfg) := by
          apply holds_of_kept hconfigured.kept _ h.holds
          intro i hi
          rw [aeBytes_length] at hi
          have hbyte := channel.toNat_lt
          refine ⟨not_inEngine_of_inEngine (Ne.symm hne) ⟨Nat.le_add_right _ _, by omega⟩, ?_, ?_⟩
          · rw [Elsewhere, devConfig3Addr, aeAddr, aeAddr]
            omega
          · rw [aeAddr, devConfig3Addr]
            omega
        exact ⟨h.lt, h.numAeu, hholds, (hconfigured.mode ch hlt hne).trans h.auto⟩

/-- Whatever calls follow, with whatever results, an engine plays the
configuration that its channel was last given with success, until the channel is
configured again. -/
theorem engines_play_configs (cfg : Config) (io : Nat → Transfer) (bus : Bus) (calls : List Call)
    (hwrap : ∀ call ∈ calls, call.NoWrap cfg) (ch : Nat) (aeCfg : AeConfig)
    (hch : (run (step cfg io) ⟨bus, fun _ => none⟩ calls).configs ch = some aeCfg) :
    let regs := (run (step cfg io) ⟨bus, fun _ => none⟩ calls).bus.regs
    autonomous regs ch = true ∧ Plays (decode fun offset => regs (aeAddr ch + offset)) aeCfg := by
  have hcoherent : Coherent cfg (run (step cfg io) ⟨bus, fun _ => none⟩ calls) := by
    apply invariant_run (C := fun _ call => call.NoWrap cfg)
    · intro s call hs hcall
      exact step_coherent hs hcall
    · intro ch aeCfg hch
      cases hch
    · exact along_of_forall (fun call hcall _ => hwrap call hcall) _
  have h := hcoherent ch aeCfg hch
  exact ⟨h.auto, plays_of_holds h.numAeu h.holds⟩

/-- A controller that answers everything. -/
def answers : Nat → Transfer :=
  fun _ => ⟨0, 0, fun _ => 0, Int.le_refl 0⟩

def lp5812 : Config where
  numChannels := 12
  ledInfos := [⟨0, 3⟩]
  numChannels_enum := Or.inr rfl

/-- Channels 3 and 4 blink while the first LED is set to a color. -/
theorem blinking_plays :
    Plays (decode fun offset =>
      (run (step lp5812 answers) ⟨⟨fun _ => 0, 0, []⟩, fun _ => none⟩
        [.blink 3 90 360, .setColor 0 3 fun _ => 255, .blink 4 180 180]).bus.regs
          (aeAddr 3 + offset)) (blinkConfig 90 360) :=
  (engines_play_configs lp5812 answers ⟨fun _ => 0, 0, []⟩
    [.blink 3 90 360, .setColor 0 3 fun _ => 255, .blink 4 180 180]
    (by simp [Call.NoWrap, lp5812, NoWrap]) 3 (blinkConfig 90 360) (by rfl)).2

end ZeusLe.Lp58xxEngine
