import Mathlib.Algebra.Order.Group.Nat
import ZeusLe.Lp58xxEngine

/-!
The LED controller, `lp58xx.c`: the currents that `lp58xx_leds_configure` writes
for the LEDs of the device tree.
-/

namespace ZeusLe.LedCurrent

def devConfig5Addr : UInt16 := 0x006

def ledEnableAddr : UInt16 := 0x020

def manualDcAddr (ch : UInt8) : UInt16 := 0x30 + ch.toUInt16

def autoDcAddr (ch : UInt8) : UInt16 := 0x50 + ch.toUInt16

/-- One color of an LED. -/
structure Color where
  manualCurrentUa : UInt16
  autoCurrentUa : UInt16

/-- `led_info` and `lp58xx_led_config`. -/
structure Led where
  index : UInt32
  colors : List Color
  exponentialDimming : Bool

/-- The device tree allows two values of `max_current_ua`. -/
structure Config where
  numChannels : UInt8
  leds : List Led
  maxCurrentUa : UInt32
  writeBufLen : Nat
  maxCurrentUa_enum : maxCurrentUa = 25500 ∨ maxCurrentUa = 51000

/-- A transaction that writes registers from `reg` on, with its result. -/
structure Write where
  reg : UInt16
  vals : List UInt8
  ret : Int
  deriving DecidableEq, Repr

/-- Oldest first. -/
abbrev Writes := List Write

section

variable (cfg : Config) (io : Nat → Int)

/-- `io` has the result of every transaction. -/
def lp58xxRegWrite (reg : UInt16) (val : UInt8) (writes : Writes) : Int × Writes :=
  (io writes.length, writes ++ [⟨reg, [val], io writes.length⟩])

def lp58xxBurstWrite (reg : UInt16) (buf : List UInt8) (writes : Writes) : Int × Writes :=
  if buf.length + 1 > cfg.writeBufLen then (-einval, writes)
  else (io writes.length, writes ++ [⟨reg, buf, io writes.length⟩])

def lp58xxCurrentFromMicroamps (currentUa : UInt16) : Int :=
  if currentUa.toUInt32 > cfg.maxCurrentUa then -einval
  else (currentUa.toUInt32 * 0xff / cfg.maxCurrentUa).toNat

/-- The common part of the setters: the error of a current that is out of bounds
becomes the value of the register. -/
def setCurrent (reg : UInt16) (channel : UInt8) (currentUa : UInt16) (writes : Writes) :
    Int × Writes :=
  if channel ≥ cfg.numChannels then (-einval, writes)
  else lp58xxRegWrite io reg (UInt8.ofInt (lp58xxCurrentFromMicroamps cfg currentUa)) writes

def lp58xxSetManualCurrent (channel : UInt8) (currentUa : UInt16) (writes : Writes) :
    Int × Writes :=
  setCurrent cfg io (manualDcAddr channel) channel currentUa writes

def lp58xxSetAutoCurrent (channel : UInt8) (currentUa : UInt16) (writes : Writes) :
    Int × Writes :=
  setCurrent cfg io (autoDcAddr channel) channel currentUa writes

structure Progress where
  ledEn : UInt16
  expEn : UInt16
  writes : Writes

def bit (ch : UInt8) : UInt16 :=
  UInt16.ofNat (2 ^ ch.toNat)

/-- The inner loop, from color `i` on. -/
def configureColors (led : Led) : Nat → List Color → Progress → Int × Progress
  | _, [], s => (0, s)
  | i, color :: colors, s =>
      let ch := UInt8.ofNat (led.index.toNat + i)
      let ledEn := s.ledEn ||| bit ch
      let (ret, writes) := lp58xxSetManualCurrent cfg io ch color.manualCurrentUa s.writes
      if ret < 0 then (ret, ⟨ledEn, s.expEn, writes⟩)
      else
        let (ret, writes) := lp58xxSetAutoCurrent cfg io ch color.autoCurrentUa writes
        if ret < 0 then (ret, ⟨ledEn, s.expEn, writes⟩)
        else
          let expEn := if led.exponentialDimming then s.expEn ||| bit ch else s.expEn
          configureColors led (i + 1) colors ⟨ledEn, expEn, writes⟩

/-- The outer loop. -/
def configureLeds : List Led → Progress → Int × Progress
  | [], s => (0, s)
  | led :: leds, s =>
      let (ret, s) := configureColors cfg io led 0 led.colors s
      if ret < 0 then (ret, s) else configureLeds leds s

def le16 (x : UInt16) : List UInt8 :=
  [x.toUInt8, (x >>> 8).toUInt8]

def lp58xxLedsConfigure : Int × Writes :=
  let (ret, s) := configureLeds cfg io cfg.leds ⟨0, 0, []⟩
  if ret < 0 then (ret, s.writes)
  else
    let (ret, writes) := lp58xxBurstWrite cfg io devConfig5Addr (le16 s.expEn) s.writes
    if ret < 0 then (ret, writes)
    else
      let (ret, writes) := lp58xxBurstWrite cfg io ledEnableAddr (le16 s.ledEn) writes
      if ret < 0 then (ret, writes) else (0, writes)

structure Request where
  reg : UInt16
  channel : UInt8
  currentUa : UInt16
  deriving DecidableEq, Repr

def colorRequests (led : Led) : Nat → List Color → List Request
  | _, [] => []
  | i, color :: colors =>
      let ch := UInt8.ofNat (led.index.toNat + i)
      ⟨manualDcAddr ch, ch, color.manualCurrentUa⟩ :: ⟨autoDcAddr ch, ch, color.autoCurrentUa⟩ ::
        colorRequests led (i + 1) colors

def requests : List Request :=
  cfg.leds.flatMap fun led => colorRequests led 0 led.colors

/-- The loops are one loop over the requests. -/
def setCurrents : List Request → Writes → Int × Writes
  | [], writes => (0, writes)
  | request :: rest, writes =>
      let (ret, writes) := setCurrent cfg io request.reg request.channel request.currentUa writes
      if ret < 0 then (ret, writes) else setCurrents rest writes

theorem setCurrents_append (first second : List Request) (writes : Writes) :
    setCurrents cfg io (first ++ second) writes =
      if (setCurrents cfg io first writes).1 < 0 then setCurrents cfg io first writes
      else setCurrents cfg io second (setCurrents cfg io first writes).2 := by
  induction first generalizing writes with
  | nil => rfl
  | cons request first ih =>
      simp only [List.cons_append, setCurrents]
      rcases lt_or_ge (setCurrent cfg io request.reg request.channel request.currentUa writes).1 0
        with hret | hret
      · simp only [if_pos hret]
      · simp only [if_neg (Int.not_lt.mpr hret)]
        exact ih _

theorem setCurrents_color (led : Led) (i : Nat) (color : Color) (colors : List Color)
    (writes : Writes) :
    setCurrents cfg io (colorRequests led i (color :: colors)) writes =
      let ch := UInt8.ofNat (led.index.toNat + i)
      let manual := lp58xxSetManualCurrent cfg io ch color.manualCurrentUa writes
      let auto := lp58xxSetAutoCurrent cfg io ch color.autoCurrentUa manual.2
      if manual.1 < 0 then manual
      else if auto.1 < 0 then auto
      else setCurrents cfg io (colorRequests led (i + 1) colors) auto.2 :=
  rfl

theorem configureColors_eq (led : Led) (i : Nat) (colors : List Color) (s : Progress) :
    ((configureColors cfg io led i colors s).1, (configureColors cfg io led i colors s).2.writes) =
      setCurrents cfg io (colorRequests led i colors) s.writes := by
  induction colors generalizing i s with
  | nil => rfl
  | cons color colors ih =>
      rw [setCurrents_color]
      simp only [configureColors]
      split
      · rfl
      · split
        · rfl
        · exact ih _ _

theorem configureLeds_eq (leds : List Led) (s : Progress) :
    ((configureLeds cfg io leds s).1, (configureLeds cfg io leds s).2.writes) =
      setCurrents cfg io (leds.flatMap fun led => colorRequests led 0 led.colors) s.writes := by
  induction leds generalizing s with
  | nil => rfl
  | cons led leds ih =>
      rw [List.flatMap_cons, setCurrents_append, ← configureColors_eq]
      simp only [configureLeds]
      rcases lt_or_ge (configureColors cfg io led 0 led.colors s).1 0 with hret | hret
      · simp only [if_pos hret]
      · simp only [if_neg (Int.not_lt.mpr hret)]
        exact ih _

/-- The write for a request that is the `n`-th transaction. -/
def requestWrite (n : Nat) (request : Request) : Write :=
  ⟨request.reg, [UInt8.ofInt (lp58xxCurrentFromMicroamps cfg request.currentUa)], io n⟩

/-- The request is for a channel of the controller and its write succeeds. -/
def Carried (n : Nat) (request : Request) : Prop :=
  request.channel < cfg.numChannels ∧ 0 ≤ io n

instance (n : Nat) (request : Request) : Decidable (Carried cfg io n request) :=
  inferInstanceAs (Decidable (_ ∧ _))

theorem setCurrent_cases (request : Request) (writes : Writes) :
    (request.channel < cfg.numChannels ∧
        setCurrent cfg io request.reg request.channel request.currentUa writes =
          (io writes.length, writes ++ [requestWrite cfg io writes.length request])) ∨
      (¬ request.channel < cfg.numChannels ∧
        setCurrent cfg io request.reg request.channel request.currentUa writes =
          (-einval, writes)) := by
  rw [setCurrent]
  split
  · rename_i hout
    exact Or.inr ⟨UInt8.not_lt.mpr hout, rfl⟩
  · rename_i hin
    exact Or.inl ⟨UInt8.not_le.mp hin, rfl⟩

theorem setCurrents_cons (request : Request) (rest : List Request) (writes : Writes) :
    setCurrents cfg io (request :: rest) writes =
      if Carried cfg io writes.length request then
        setCurrents cfg io rest (writes ++ [requestWrite cfg io writes.length request])
      else setCurrent cfg io request.reg request.channel request.currentUa writes := by
  simp only [setCurrents]
  rcases setCurrent_cases cfg io request writes with ⟨hin, hset⟩ | ⟨hout, hset⟩
  · rw [hset]
    rcases lt_or_ge (io writes.length) 0 with hio | hio
    · rw [if_pos hio, if_neg fun h => absurd h.2 (Int.not_le.mpr hio)]
    · rw [if_neg (Int.not_lt.mpr hio), if_pos ⟨hin, hio⟩]
  · rw [hset, if_pos neg_einval, if_neg fun h => hout h.1]

theorem setCurrent_fails {request : Request} {writes : Writes}
    (hfail : ¬ Carried cfg io writes.length request) :
    (setCurrent cfg io request.reg request.channel request.currentUa writes).1 < 0 ∧
      ∃ more, (setCurrent cfg io request.reg request.channel request.currentUa writes).2 =
        writes ++ more ∧ more.length ≤ 1 ∧
          ∀ w ∈ more, w = requestWrite cfg io writes.length request ∧ w.ret < 0 := by
  rcases setCurrent_cases cfg io request writes with ⟨hin, hset⟩ | ⟨hout, hset⟩
  · have hio : io writes.length < 0 := Int.not_le.mp fun hio => hfail ⟨hin, hio⟩
    rw [hset]
    refine ⟨hio, _, rfl, by simp, ?_⟩
    intro w hw
    obtain rfl := List.mem_singleton.mp hw
    exact ⟨rfl, hio⟩
  · rw [hset]
    exact ⟨neg_einval, [], by simp, by simp, by simp⟩

theorem setCurrents_writes (rs : List Request) (writes : Writes) :
    ∃ more, (setCurrents cfg io rs writes).2 = writes ++ more ∧ more.length ≤ rs.length ∧
      (0 ≤ (setCurrents cfg io rs writes).1 → more.length = rs.length) ∧
      ∀ i w, more[i]? = some w →
        ∃ r, rs[i]? = some r ∧ w = requestWrite cfg io (writes.length + i) r := by
  induction rs generalizing writes with
  | nil => exact ⟨[], by simp [setCurrents], by simp, by simp, by simp⟩
  | cons request rest ih =>
      rw [setCurrents_cons]
      split
      · obtain ⟨more, hwrites, hle, hall, hmore⟩ :=
          ih (writes ++ [requestWrite cfg io writes.length request])
        refine ⟨requestWrite cfg io writes.length request :: more, ?_, ?_, ?_, ?_⟩
        · rw [hwrites, List.append_assoc]
          rfl
        · simpa using hle
        · intro hret
          simpa using hall hret
        · intro i w hw
          cases i with
          | zero =>
              obtain rfl : requestWrite cfg io writes.length request = w := by simpa using hw
              exact ⟨request, rfl, rfl⟩
          | succ i =>
              obtain ⟨r, hr, rfl⟩ := hmore i w (by simpa using hw)
              refine ⟨r, by simpa using hr, ?_⟩
              rw [List.length_append, List.length_singleton, Nat.add_assoc, Nat.add_comm 1 i]
      · rename_i hfail
        obtain ⟨hret, more, hwrites, hle, hmore⟩ := setCurrent_fails cfg io hfail
        refine ⟨more, hwrites, ?_, fun h => absurd hret (Int.not_lt.mpr h), ?_⟩
        · rw [List.length_cons]
          omega
        · intro i w hw
          obtain rfl : i = 0 := by
            have hlt := (List.getElem?_eq_some_iff.mp hw).1
            omega
          exact ⟨request, rfl, (hmore w (List.mem_of_getElem? hw)).1⟩

theorem setCurrents_fails_iff (rs : List Request) (writes : Writes) :
    (setCurrents cfg io rs writes).1 < 0 ↔
      ∃ j r, rs[j]? = some r ∧ ¬ Carried cfg io (writes.length + j) r := by
  induction rs generalizing writes with
  | nil => simp [setCurrents]
  | cons request rest ih =>
      rw [setCurrents_cons]
      split
      · rename_i hcarried
        rw [ih, List.length_append, List.length_singleton]
        constructor
        · rintro ⟨j, r, hr, hfail⟩
          exact ⟨j + 1, r, by simpa using hr, by rwa [← Nat.add_assoc, Nat.add_right_comm]⟩
        · rintro ⟨j, r, hr, hfail⟩
          cases j with
          | zero =>
              obtain rfl : request = r := by simpa using hr
              exact absurd hcarried hfail
          | succ j => exact ⟨j, r, by simpa using hr, by rwa [Nat.add_assoc, Nat.add_comm 1 j]⟩
      · rename_i hfail
        refine iff_of_true (setCurrent_fails cfg io hfail).1 ⟨0, request, rfl, hfail⟩

theorem setCurrents_carried_iff (rs : List Request) (writes : Writes) {i : Nat}
    (hi : i < rs.length) :
    (∃ w, (setCurrents cfg io rs writes).2[writes.length + i]? = some w ∧ 0 ≤ w.ret) ↔
      ∀ j ≤ i, ∀ r, rs[j]? = some r → Carried cfg io (writes.length + j) r := by
  induction rs generalizing writes i with
  | nil => simp at hi
  | cons request rest ih =>
      rw [setCurrents_cons]
      split
      · rename_i hcarried
        cases i with
        | zero =>
            obtain ⟨more, hwrites, -⟩ :=
              setCurrents_writes cfg io rest (writes ++ [requestWrite cfg io writes.length request])
            refine iff_of_true ⟨requestWrite cfg io writes.length request, ?_, hcarried.2⟩ ?_
            · rw [hwrites, List.append_assoc, List.getElem?_append_right (by omega)]
              simp
            · intro j hj r hr
              obtain rfl : j = 0 := Nat.le_zero.mp hj
              obtain rfl : request = r := by simpa using hr
              exact hcarried
        | succ i =>
            have hrest := ih (writes ++ [requestWrite cfg io writes.length request])
              (i := i) (by simpa using hi)
            rw [List.length_append, List.length_singleton] at hrest
            rw [← Nat.add_assoc, Nat.add_right_comm, hrest]
            constructor
            · intro hall j hj r hr
              cases j with
              | zero =>
                  obtain rfl : request = r := by simpa using hr
                  exact hcarried
              | succ j =>
                  rw [← Nat.add_assoc, Nat.add_right_comm]
                  exact hall j (Nat.le_of_succ_le_succ hj) r (by simpa using hr)
            · intro hall j hj r hr
              rw [Nat.add_right_comm, Nat.add_assoc]
              exact hall (j + 1) (Nat.succ_le_succ hj) r (by simpa using hr)
      · rename_i hfail
        obtain ⟨-, more, hwrites, -, hmore⟩ := setCurrent_fails cfg io hfail
        refine iff_of_false ?_ fun hall => hfail (hall 0 (Nat.zero_le i) request rfl)
        rintro ⟨w, hw, hret⟩
        rw [hwrites, List.getElem?_append_right (by omega)] at hw
        have hlt := (hmore w (List.mem_of_getElem? hw)).2
        omega

theorem lp58xxBurstWrite_writes (reg : UInt16) (buf : List UInt8) (writes : Writes) :
    ∃ more, (lp58xxBurstWrite cfg io reg buf writes).2 = writes ++ more ∧
      ∀ w ∈ more, w.reg = reg := by
  rw [lp58xxBurstWrite]
  split
  · exact ⟨[], by simp, by simp⟩
  · exact ⟨_, rfl, by simp⟩

theorem lp58xxLedsConfigure_eq :
    let currents := setCurrents cfg io (requests cfg) []
    (currents.1 < 0 → lp58xxLedsConfigure cfg io = currents) ∧
      (0 ≤ currents.1 → ∃ more, (lp58xxLedsConfigure cfg io).2 = currents.2 ++ more ∧
        ∀ w ∈ more, w.reg = devConfig5Addr ∨ w.reg = ledEnableAddr) := by
  intro currents
  have hloops : (_, _) = currents := configureLeds_eq cfg io cfg.leds ⟨0, 0, []⟩
  have hret := congrArg Prod.fst hloops
  have hwrites := congrArg Prod.snd hloops
  simp only at hret hwrites
  simp only [lp58xxLedsConfigure]
  constructor
  · intro hfail
    rw [if_pos (by rwa [hret])]
    exact hloops
  · intro hok
    rw [if_neg (by rw [hret]; exact Int.not_lt.mpr hok)]
    generalize (configureLeds cfg io cfg.leds ⟨0, 0, []⟩).2 = s at hwrites ⊢
    obtain ⟨first, hfirst, hfirstReg⟩ :=
      lp58xxBurstWrite_writes cfg io devConfig5Addr (le16 s.expEn) s.writes
    obtain ⟨second, hsecond, hsecondReg⟩ := lp58xxBurstWrite_writes cfg io ledEnableAddr
      (le16 s.ledEn) (lp58xxBurstWrite cfg io devConfig5Addr (le16 s.expEn) s.writes).2
    have hboth : ∀ w ∈ first ++ second, w.reg = devConfig5Addr ∨ w.reg = ledEnableAddr := by
      intro w hw
      rcases List.mem_append.mp hw with hw | hw
      · exact Or.inl (hfirstReg w hw)
      · exact Or.inr (hsecondReg w hw)
    split
    · refine ⟨first, by rw [hfirst, hwrites], ?_⟩
      intro w hw
      exact hboth w (List.mem_append_left second hw)
    · split
      · exact ⟨first ++ second, by rw [hsecond, hfirst, hwrites, List.append_assoc], hboth⟩
      · exact ⟨first ++ second, by rw [hsecond, hfirst, hwrites, List.append_assoc], hboth⟩

theorem lp58xxLedsConfigure_getElem {i : Nat} (hi : i < (requests cfg).length) :
    (lp58xxLedsConfigure cfg io).2[i]? = (setCurrents cfg io (requests cfg) []).2[i]? := by
  obtain ⟨hfail, hok⟩ := lp58xxLedsConfigure_eq cfg io
  obtain ⟨written, hwritten, -, hall, -⟩ := setCurrents_writes cfg io (requests cfg) []
  rcases lt_or_ge (setCurrents cfg io (requests cfg) []).1 0 with hret | hret
  · rw [hfail hret]
  · obtain ⟨more, hmore, -⟩ := hok hret
    rw [hmore, List.getElem?_append_left]
    rw [hwritten, List.nil_append, hall hret]
    exact hi

/-- No register gets a value above the current that its channel asks for. -/
def WithinLimits : Prop :=
  ∀ (i : Nat) (w : Write), (lp58xxLedsConfigure cfg io).2[i]? = some w →
    (∃ (r : Request) (val : UInt8), (requests cfg)[i]? = some r ∧ w.reg = r.reg ∧ w.vals = [val] ∧
        val.toNat * cfg.maxCurrentUa.toNat ≤ r.currentUa.toNat * 255) ∨
      ((requests cfg)[i]? = none ∧ (w.reg = devConfig5Addr ∨ w.reg = ledEnableAddr))

/-- A current that is out of bounds is an error, and its register is not
written. -/
def ExcessRefused : Prop :=
  ∀ (i : Nat) (r : Request), (requests cfg)[i]? = some r →
    cfg.maxCurrentUa.toNat < r.currentUa.toNat →
    (lp58xxLedsConfigure cfg io).1 < 0 ∧
      ¬ ∃ w : Write, (lp58xxLedsConfigure cfg io).2[i]? = some w ∧ 0 ≤ w.ret

def CurrentLimits : Prop :=
  WithinLimits cfg io ∧ ExcessRefused cfg io

/-- Before every current that is out of bounds, or at it, the loop ends for
another reason: a channel that the controller does not have, or a write that
fails. -/
def ExcessNotReached : Prop :=
  ∀ (i : Nat) (r : Request), (requests cfg)[i]? = some r →
    cfg.maxCurrentUa.toNat < r.currentUa.toNat →
    ∃ j ≤ i, ∃ r' : Request, (requests cfg)[j]? = some r' ∧ ¬ Carried cfg io j r'

theorem value_mul_le (currentUa : UInt16) :
    (UInt8.ofInt (lp58xxCurrentFromMicroamps cfg currentUa)).toNat * cfg.maxCurrentUa.toNat ≤
      currentUa.toNat * 255 := by
  have hcurrent : currentUa.toUInt32.toNat = currentUa.toNat := UInt16.toNat_toUInt32 currentUa
  have hlt : currentUa.toNat < 65536 := currentUa.toNat_lt
  rw [lp58xxCurrentFromMicroamps]
  rcases Classical.em (currentUa.toUInt32 > cfg.maxCurrentUa) with hexcess | hfit
  · rw [if_pos hexcess]
    have hval : (UInt8.ofInt (-einval)).toNat = 234 := by decide
    have hnat : cfg.maxCurrentUa.toNat < currentUa.toNat := by
      rw [← hcurrent]
      exact UInt32.lt_iff_toNat_lt.mp hexcess
    rw [hval]
    omega
  · rw [if_neg hfit]
    have hmul : (currentUa.toUInt32 * 0xff).toNat = currentUa.toNat * 255 := by
      rw [UInt32.toNat_mul, hcurrent]
      exact Nat.mod_eq_of_lt (by change currentUa.toNat * 255 < 2 ^ 32; omega)
    have hval (n : Nat) : (UInt8.ofInt n).toNat ≤ n := by
      have hmod : ((n : Int) % 2 ^ 8).toNat = n % 2 ^ 8 := by omega
      rw [UInt8.ofInt, hmod, UInt8.toNat_ofNat']
      exact (Nat.mod_le _ _).trans (Nat.mod_le _ _)
    calc
      _ ≤ (currentUa.toUInt32 * 0xff / cfg.maxCurrentUa).toNat * cfg.maxCurrentUa.toNat :=
        Nat.mul_le_mul_right _ (hval _)
      _ = currentUa.toNat * 255 / cfg.maxCurrentUa.toNat * cfg.maxCurrentUa.toNat := by
        rw [UInt32.toNat_div, hmul]
      _ ≤ currentUa.toNat * 255 := Nat.div_mul_le_self _ _

theorem withinLimits : WithinLimits cfg io := by
  obtain ⟨hfail, hok⟩ := lp58xxLedsConfigure_eq cfg io
  obtain ⟨written, hwritten, -, hall, hrequest⟩ := setCurrents_writes cfg io (requests cfg) []
  rw [List.nil_append] at hwritten
  have hlimit (i : Nat) (w : Write) (hw : written[i]? = some w) :
      ∃ (r : Request) (val : UInt8), (requests cfg)[i]? = some r ∧ w.reg = r.reg ∧
        w.vals = [val] ∧ val.toNat * cfg.maxCurrentUa.toNat ≤ r.currentUa.toNat * 255 := by
    obtain ⟨r, hr, rfl⟩ := hrequest i w hw
    exact ⟨r, _, hr, rfl, rfl, value_mul_le cfg r.currentUa⟩
  intro i w hw
  rcases lt_or_ge (setCurrents cfg io (requests cfg) []).1 0 with hret | hret
  · rw [hfail hret, hwritten] at hw
    exact Or.inl (hlimit i w hw)
  · obtain ⟨more, hmore, hregs⟩ := hok hret
    rw [hmore, hwritten] at hw
    rcases Nat.lt_or_ge i written.length with hi | hi
    · rw [List.getElem?_append_left hi] at hw
      exact Or.inl (hlimit i w hw)
    · rw [List.getElem?_append_right hi] at hw
      refine Or.inr ⟨?_, hregs w (List.mem_of_getElem? hw)⟩
      rw [List.getElem?_eq_none_iff, ← hall hret]
      exact hi

theorem excessRefused_iff : ExcessRefused cfg io ↔ ExcessNotReached cfg io := by
  obtain ⟨hfail, -⟩ := lp58xxLedsConfigure_eq cfg io
  have hplace (i : Nat) (r : Request) (hr : (requests cfg)[i]? = some r) :
      (∃ w : Write, (lp58xxLedsConfigure cfg io).2[i]? = some w ∧ 0 ≤ w.ret) ↔
        ∀ j ≤ i, ∀ r', (requests cfg)[j]? = some r' → Carried cfg io j r' := by
    have hi : i < (requests cfg).length := (List.getElem?_eq_some_iff.mp hr).1
    have hcarried := setCurrents_carried_iff cfg io (requests cfg) [] hi
    simp only [List.length_nil, Nat.zero_add] at hcarried
    rw [lp58xxLedsConfigure_getElem cfg io hi, hcarried]
  constructor
  · intro hrefused i r hr hexcess
    have hnot := (hrefused i r hr hexcess).2
    rw [hplace i r hr] at hnot
    simp only [not_forall] at hnot
    obtain ⟨j, hj, r', hr', hstop⟩ := hnot
    exact ⟨j, hj, r', hr', hstop⟩
  · intro hstops i r hr hexcess
    obtain ⟨j, hj, r', hr', hstop⟩ := hstops i r hr hexcess
    constructor
    · have hret : (setCurrents cfg io (requests cfg) []).1 < 0 := by
        rw [setCurrents_fails_iff]
        exact ⟨j, r', hr', by simpa using hstop⟩
      rwa [hfail hret]
    · rw [hplace i r hr]
      intro hall
      exact hstop (hall j hj r' hr')

theorem currentLimits_iff : CurrentLimits cfg io ↔ ExcessNotReached cfg io := by
  rw [CurrentLimits, excessRefused_iff]
  exact and_iff_right (withinLimits cfg io)

end

section

open Lp58xxEngine (Apart Bus Elsewhere Kept Transfer)

variable (cfg : Config) (transfers : Nat → Transfer)

/-- The bus after the writes. -/
def play (s : Bus) (writes : Writes) : Bus :=
  Library.Run.run (fun s w => (Lp58xxEngine.i2cWrite transfers w.reg.toNat w.vals s).2) s writes

theorem play_append (s : Bus) (writes : Writes) (w : Write) :
    play transfers s (writes ++ [w]) =
      (Lp58xxEngine.i2cWrite transfers w.reg.toNat w.vals (play transfers s writes)).2 := by
  rw [play, Library.Run.run_append]
  rfl

theorem play_count (s : Bus) (writes : Writes) :
    (play transfers s writes).count = s.count + writes.length := by
  induction writes generalizing s with
  | nil => rfl
  | cons w writes ih =>
      refine (ih _).trans ?_
      change s.count + 1 + writes.length = s.count + (writes.length + 1)
      omega

theorem lp58xxRegWrite_play {s : Bus} (hs : s.count = 0) (reg : UInt16) (val : UInt8)
    (writes : Writes) :
    let r := lp58xxRegWrite (fun n => (transfers n).ret) reg val writes
    Lp58xxEngine.lp58xxRegWrite transfers reg.toNat val (play transfers s writes) =
      (r.1, play transfers s r.2) := by
  simp only [lp58xxRegWrite, play_append]
  refine Prod.ext ?_ rfl
  change (transfers (play transfers s writes).count).ret = _
  rw [play_count, hs, Nat.zero_add]

theorem lp58xxBurstWrite_play {engines : Lp58xxEngine.Config}
    (hlen : cfg.writeBufLen = engines.writeBufLen) {s : Bus} (hs : s.count = 0) (reg : UInt16)
    (buf : List UInt8) (writes : Writes) :
    let r := lp58xxBurstWrite cfg (fun n => (transfers n).ret) reg buf writes
    Lp58xxEngine.lp58xxBurstWrite engines transfers reg.toNat buf (play transfers s writes) =
      (r.1, play transfers s r.2) := by
  simp only [lp58xxBurstWrite, Lp58xxEngine.lp58xxBurstWrite, hlen]
  split
  · rfl
  · rw [play_append]
    refine Prod.ext ?_ rfl
    change (transfers (play transfers s writes).count).ret = _
    rw [play_count, hs, Nat.zero_add]

/-- A write that reaches no engine and no mode. -/
def Outside (w : Write) : Prop :=
  ∀ i < w.vals.length, Elsewhere (w.reg.toNat + i)

theorem play_apart {writes : Writes} (hwrites : ∀ w ∈ writes, Outside w) (s : Bus) :
    Apart s (play transfers s writes) := by
  induction writes generalizing s with
  | nil => exact Kept.refl _ s
  | cons w writes ih =>
      have hfirst := Lp58xxEngine.i2cWrite_apart transfers (hwrites w List.mem_cons_self) s
      exact hfirst.trans (ih (fun w hw => hwrites w (List.mem_cons_of_mem _ hw)) _)

variable (io : Nat → Int)

theorem colorRequests_reg {led : Led} {i : Nat} {colors : List Color} {request : Request}
    (hrequest : request ∈ colorRequests led i colors) :
    request.reg = manualDcAddr request.channel ∨ request.reg = autoDcAddr request.channel := by
  induction colors generalizing i with
  | nil => cases hrequest
  | cons color colors ih =>
      rcases List.mem_cons.mp hrequest with rfl | hrest
      · exact Or.inl rfl
      · rcases List.mem_cons.mp hrest with rfl | hrest
        · exact Or.inr rfl
        · exact ih hrest

theorem requestWrite_outside (hchannels : cfg.numChannels.toNat ≤ 12) {request : Request}
    (hreg : request.reg = manualDcAddr request.channel ∨ request.reg = autoDcAddr request.channel)
    (hin : request.channel < cfg.numChannels) (n : Nat) :
    Outside (requestWrite cfg io n request) := by
  intro i hi
  obtain rfl : i = 0 := Nat.lt_one_iff.mp hi
  have hch : request.channel.toNat < 12 := Nat.lt_of_lt_of_le (UInt8.lt_iff_toNat_lt.mp hin) hchannels
  have hlow : request.channel.toUInt16.toNat = request.channel.toNat :=
    UInt8.toNat_toUInt16 request.channel
  have hmanual : (manualDcAddr request.channel).toNat = 0x30 + request.channel.toNat := by
    rw [manualDcAddr, UInt16.toNat_add, hlow]
    exact Nat.mod_eq_of_lt (by change 0x30 + _ < 65536; omega)
  have hauto : (autoDcAddr request.channel).toNat = 0x50 + request.channel.toNat := by
    rw [autoDcAddr, UInt16.toNat_add, hlow]
    exact Nat.mod_eq_of_lt (by change 0x50 + _ < 65536; omega)
  have haddr : (requestWrite cfg io n request).reg = request.reg := rfl
  simp only [haddr, Elsewhere, Lp58xxEngine.devConfig3Addr, Lp58xxEngine.aeAddr]
  rcases hreg with h | h
  · rw [h, hmanual]
    omega
  · rw [h, hauto]
    omega

theorem setCurrents_outside (hchannels : cfg.numChannels.toNat ≤ 12) {rs : List Request}
    (hregs : ∀ request ∈ rs, request.reg = manualDcAddr request.channel ∨
      request.reg = autoDcAddr request.channel) {writes : Writes}
    (hwrites : ∀ w ∈ writes, Outside w) : ∀ w ∈ (setCurrents cfg io rs writes).2, Outside w := by
  induction rs generalizing writes with
  | nil => exact hwrites
  | cons request rest ih =>
      have hnext : ∀ w ∈ (setCurrent cfg io request.reg request.channel request.currentUa writes).2,
          Outside w := by
        rcases setCurrent_cases cfg io request writes with ⟨hin, hset⟩ | ⟨-, hset⟩
        · rw [hset]
          intro w hw
          rcases List.mem_append.mp hw with hold | hnew
          · exact hwrites w hold
          · rw [List.mem_singleton.mp hnew]
            exact requestWrite_outside cfg io hchannels (hregs request List.mem_cons_self) hin _
        · rw [hset]
          exact hwrites
      simp only [setCurrents]
      split
      · exact hnext
      · exact ih (fun request h => hregs request (List.mem_cons_of_mem _ h)) hnext

theorem lp58xxBurstWrite_outside {reg : UInt16} (hreg : reg = devConfig5Addr ∨ reg = ledEnableAddr)
    (x : UInt16) {writes : Writes} (hwrites : ∀ w ∈ writes, Outside w) :
    ∀ w ∈ (lp58xxBurstWrite cfg io reg (le16 x) writes).2, Outside w := by
  rw [lp58xxBurstWrite]
  split
  · exact hwrites
  · intro w hw
    rcases List.mem_append.mp hw with hold | hnew
    · exact hwrites w hold
    · rw [List.mem_singleton.mp hnew]
      intro i hi
      change i < 2 at hi
      rcases hreg with rfl | rfl
      · change Elsewhere (0x006 + i)
        rw [Elsewhere, Lp58xxEngine.devConfig3Addr, Lp58xxEngine.aeAddr]
        omega
      · change Elsewhere (0x020 + i)
        rw [Elsewhere, Lp58xxEngine.devConfig3Addr, Lp58xxEngine.aeAddr]
        omega

theorem lp58xxLedsConfigure_outside (hchannels : cfg.numChannels.toNat ≤ 12) :
    ∀ w ∈ (lp58xxLedsConfigure cfg io).2, Outside w := by
  have hcurrents : ∀ w ∈ (configureLeds cfg io cfg.leds ⟨0, 0, []⟩).2.writes, Outside w := by
    have hloops := congrArg Prod.snd (configureLeds_eq cfg io cfg.leds ⟨0, 0, []⟩)
    simp only at hloops
    rw [hloops]
    apply setCurrents_outside cfg io hchannels
    · intro request hrequest
      obtain ⟨led, -, hled⟩ := List.mem_flatMap.mp hrequest
      exact colorRequests_reg hled
    · intro w hw
      cases hw
  have hfirst := lp58xxBurstWrite_outside cfg io (Or.inl rfl)
    (configureLeds cfg io cfg.leds ⟨0, 0, []⟩).2.expEn hcurrents
  have hsecond := lp58xxBurstWrite_outside cfg io (Or.inr rfl)
    (configureLeds cfg io cfg.leds ⟨0, 0, []⟩).2.ledEn hfirst
  simp only [lp58xxLedsConfigure]
  split
  · exact hcurrents
  · split
    · exact hfirst
    · split
      · exact hsecond
      · exact hsecond

theorem lp58xxLedsConfigure_apart (hchannels : cfg.numChannels.toNat ≤ 12) (s : Bus) :
    Apart s (play transfers s (lp58xxLedsConfigure cfg fun n => (transfers n).ret).2) :=
  play_apart transfers (lp58xxLedsConfigure_outside cfg _ hchannels) s

end

/-- One LED of one color, which asks for 30 mA on a controller that has 25.5. -/
def excessive : Config where
  numChannels := 4
  leds := [⟨0, [⟨30000, 6000⟩], false⟩]
  maxCurrentUa := 25500
  writeBufLen := 27
  maxCurrentUa_enum := Or.inl rfl

/-- 234 is written for 30 mA, and no error is returned. -/
theorem excessive_written : ¬ CurrentLimits excessive fun _ => 0 := by
  rintro ⟨-, hrefused⟩
  have hret := (hrefused 0 ⟨manualDcAddr 0, 0, 30000⟩ rfl (by decide)).1
  revert hret
  decide

end ZeusLe.LedCurrent
