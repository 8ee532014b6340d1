import ZeusLe.Errno
import ZeusLe.Library.DelayedWork
import ZeusLe.Library.Run

/-!
The card of an audio node, `sd_card.c`: the disk and the file system follow the
slot, with calls that may fail.
-/

namespace ZeusLe.SdCard

open ZeusLe.Library.DelayedWork (Watch Settled schedule settled_handle settled_step step_handle)
open ZeusLe.Library.Run

/-- What was done with the card: the disk was initialized, the file system
mounted, the recorder told, and the opposite. -/
inductive CardCall where
  | diskInit
  | mount
  | recordCardInserted
  | unmount
  | diskDeinit
  deriving DecidableEq, Repr

/-- `sd_card_data`, and the calls so far that took effect. -/
structure SdCardData where
  init : Bool
  diskInit : Bool
  mounted : Bool
  calls : List CardCall
  deriving DecidableEq, Repr

def sdCard : SdCardData := ⟨false, false, false, []⟩

/-- The results of the calls in a run of the handler. -/
structure Io where
  diskInit : Int := 0
  sectorCount : Int := 0
  sectorSize : Int := 0
  mount : Int := 0
  recordCardInserted : Int := 0
  unmount : Int := 0
  diskDeinit : Int := 0
  deriving DecidableEq, Repr

/-- Its result; the size only goes to the log. -/
def sdCardPrintInfo (io : Io) : Int :=
  if io.sectorCount < 0 then io.sectorCount
  else if io.sectorSize < 0 then io.sectorSize
  else 0

def insertedInit (io : Io) (data : SdCardData) : Int × SdCardData :=
  if data.diskInit then (0, data)
  else if io.diskInit < 0 then (io.diskInit, data)
  else
    let data := { data with diskInit := true, calls := data.calls ++ [.diskInit] }
    let ret := sdCardPrintInfo io
    if ret < 0 then (ret, data) else (0, data)

def insertedMount (io : Io) (data : SdCardData) : Int × SdCardData :=
  if data.mounted then (0, data)
  else if io.mount ≠ 0 then (-enodev, data)
  else (0, { data with mounted := true, calls := data.calls ++ [.mount] })

def sdCardInserted (io : Io) (data : SdCardData) : Int × SdCardData :=
  let (ret, data) := insertedInit io data
  if ret < 0 then (ret, data)
  else
    let (ret, data) := insertedMount io data
    if ret < 0 then (ret, data)
    else (io.recordCardInserted, { data with calls := data.calls ++ [.recordCardInserted] })

def removedUnmount (io : Io) (data : SdCardData) : Int × SdCardData :=
  if data.mounted then
    if io.unmount ≠ 0 then (-enodev, data)
    else (0, { data with mounted := false, calls := data.calls ++ [.unmount] })
  else (0, data)

def removedDeinit (io : Io) (data : SdCardData) : Int × SdCardData :=
  if data.diskInit then
    if io.diskDeinit < 0 then (io.diskDeinit, data)
    else (0, { data with diskInit := false, calls := data.calls ++ [.diskDeinit] })
  else (0, data)

def sdCardRemoved (io : Io) (data : SdCardData) : Int × SdCardData :=
  let (ret, data) := removedUnmount io data
  if ret < 0 then (ret, data) else removedDeinit io data

def sdCardWorkHandler (present : Bool) (io : Io) (data : SdCardData) : Int × SdCardData :=
  if present then sdCardInserted io data else sdCardRemoved io data

/-- The slot with its work item, the data, and the result of the handler at its
last run. -/
structure State where
  slot : Watch Bool
  data : SdCardData
  result : Int
  deriving DecidableEq, Repr

def initial (present : Bool) : State :=
  ⟨⟨present, .idle, []⟩, sdCard, 0⟩

def debounce : Nat := 100

/-- A card goes in or out, `sd_card_init`, the timer, and a run of the handler;
times are in milliseconds. -/
inductive Event where
  | slot (now : Nat) (present : Bool)
  | init (now : Nat) (enable : Int)
  | timeout (now : Nat)
  | handle (io : Io)
  deriving DecidableEq, Repr

/-- `sd_card_init` lets the slot interrupt; its result is left out. -/
def sdCardInit (now : Nat) (enable : Int) (s : State) : State :=
  if s.data.init then s
  else if enable ≠ 0 then s
  else
    { s with
      slot := { s.slot with work := schedule now 0 s.slot.work }
      data := { s.data with init := true } }

def step (s : State) : Event → State
  | .slot now present =>
      if s.data.init then
        { s with slot := Library.DelayedWork.step debounce s.slot (.change now present) }
      else { s with slot := { s.slot with current := present } }
  | .init now enable => sdCardInit now enable s
  | .timeout now => { s with slot := Library.DelayedWork.step debounce s.slot (.timeout now) }
  | .handle io =>
      if s.slot.work.queued then
        let (result, data) := sdCardWorkHandler s.slot.current io s.data
        { slot := Library.DelayedWork.step debounce s.slot .handle, data := data, result := result }
      else s

inductive Phase where
  | absent
  | ready
  | mounted
  deriving DecidableEq, Repr

def Phase.after : Phase → CardCall → Option Phase
  | .absent, .diskInit => some .ready
  | .ready, .mount => some .mounted
  | .mounted, .recordCardInserted => some .mounted
  | .mounted, .unmount => some .ready
  | .ready, .diskDeinit => some .absent
  | _, _ => none

/-- Where the calls lead to, if each of them is possible after those before. -/
def Phase.afterAll (phase : Phase) (calls : List CardCall) : Option Phase :=
  calls.foldlM Phase.after phase

/-- The phase that the flags stand for. -/
def phaseOf (data : SdCardData) : Option Phase :=
  match data.diskInit, data.mounted with
  | false, false => some .absent
  | true, false => some .ready
  | true, true => some .mounted
  | false, true => none

structure Ordered (data : SdCardData) : Prop where
  calls : Phase.absent.afterAll data.calls = phaseOf data
  phase : phaseOf data ≠ none

theorem afterAll_concat (phase : Phase) (calls : List CardCall) (call : CardCall) :
    phase.afterAll (calls ++ [call]) = (phase.afterAll calls).bind (·.after call) := by
  simp [Phase.afterAll, List.foldlM_append]

theorem Ordered.concat {data data' : SdCardData} (h : Ordered data) {call : CardCall}
    (phase phase' : Phase) (hphase : phaseOf data = some phase)
    (hafter : phase.after call = some phase') (hphase' : phaseOf data' = some phase')
    (hcalls : data'.calls = data.calls ++ [call]) : Ordered data' where
  calls := by
    rw [hcalls, afterAll_concat, h.calls, hphase, hphase']
    exact hafter
  phase := by
    rw [hphase']
    exact Option.some_ne_none _

theorem phaseOf_mounted {data : SdCardData} (h : Ordered data) (hmounted : data.mounted = true) :
    phaseOf data = some .mounted := by
  have hphase := h.phase
  simp only [phaseOf, hmounted] at hphase ⊢
  cases hinit : data.diskInit with
  | false => simp only [hinit, ne_eq, not_true_eq_false] at hphase
  | true => rfl

theorem enodev_neg : ¬ 0 ≤ -enodev := by
  decide

theorem ordered_insertedInit (io : Io) {data : SdCardData} (h : Ordered data) :
    Ordered (insertedInit io data).2 ∧
      (0 ≤ (insertedInit io data).1 → (insertedInit io data).2.diskInit = true) := by
  simp only [insertedInit]
  split
  · rename_i hinit
    exact ⟨h, fun _ => hinit⟩
  rename_i hinit
  split
  · rename_i hret
    exact ⟨h, fun hpos => absurd hret (Int.not_lt.mpr hpos)⟩
  have hunmounted : data.mounted = false := by
    cases hmounted : data.mounted with
    | false => rfl
    | true =>
        have := phaseOf_mounted h hmounted
        simp [phaseOf, hmounted, hinit] at this
  have hready : Ordered { data with diskInit := true, calls := data.calls ++ [.diskInit] } := by
    apply h.concat .absent .ready _ rfl _ rfl
    · simp [phaseOf, hunmounted, hinit]
    · simp [phaseOf, hunmounted]
  split
  · exact ⟨hready, fun _ => rfl⟩
  · exact ⟨hready, fun _ => rfl⟩

theorem ordered_insertedMount (io : Io) {data : SdCardData} (h : Ordered data)
    (hinit : data.diskInit = true) :
    Ordered (insertedMount io data).2 ∧ (insertedMount io data).2.diskInit = true ∧
      (0 ≤ (insertedMount io data).1 → (insertedMount io data).2.mounted = true) := by
  simp only [insertedMount]
  split
  · rename_i hmounted
    exact ⟨h, hinit, fun _ => hmounted⟩
  rename_i hmounted
  split
  · exact ⟨h, hinit, fun hpos => absurd hpos enodev_neg⟩
  · refine ⟨?_, hinit, fun _ => rfl⟩
    apply h.concat .ready .mounted _ rfl _ rfl
    · simp [phaseOf, hmounted, hinit]
    · simp [phaseOf, hinit]

theorem ordered_sdCardInserted (io : Io) {data : SdCardData} (h : Ordered data) :
    Ordered (sdCardInserted io data).2 ∧
      (0 ≤ (sdCardInserted io data).1 →
        (sdCardInserted io data).2.diskInit = true ∧
        (sdCardInserted io data).2.mounted = true) := by
  obtain ⟨hfirst, hinit⟩ := ordered_insertedInit io h
  simp only [sdCardInserted]
  split
  · rename_i hret
    exact ⟨hfirst, fun hpos => absurd hret (Int.not_lt.mpr hpos)⟩
  rename_i hret
  obtain ⟨hsecond, hinit', hmounted⟩ :=
    ordered_insertedMount io hfirst (hinit (Int.not_lt.mp hret))
  split
  · rename_i hret'
    exact ⟨hsecond, fun hpos => absurd hret' (Int.not_lt.mpr hpos)⟩
  rename_i hret'
  have hmounted' := hmounted (Int.not_lt.mp hret')
  have hphase := phaseOf_mounted hsecond hmounted'
  exact ⟨hsecond.concat .mounted .mounted hphase rfl hphase rfl, fun _ => ⟨hinit', hmounted'⟩⟩

theorem ordered_removedUnmount (io : Io) {data : SdCardData} (h : Ordered data) :
    Ordered (removedUnmount io data).2 ∧
      (0 ≤ (removedUnmount io data).1 → (removedUnmount io data).2.mounted = false) := by
  simp only [removedUnmount]
  split
  · rename_i hmounted
    have hphase := phaseOf_mounted h hmounted
    have hinit : data.diskInit = true := by
      cases hinit : data.diskInit with
      | true => rfl
      | false => simp [phaseOf, hmounted, hinit] at hphase
    split
    · exact ⟨h, fun hpos => absurd hpos enodev_neg⟩
    · refine ⟨?_, fun _ => rfl⟩
      apply h.concat .mounted .ready hphase rfl _ rfl
      simp [phaseOf, hinit]
  · rename_i hmounted
    exact ⟨h, fun _ => Bool.eq_false_iff.mpr hmounted⟩

theorem ordered_removedDeinit (io : Io) {data : SdCardData} (h : Ordered data)
    (hmounted : data.mounted = false) :
    Ordered (removedDeinit io data).2 ∧ (removedDeinit io data).2.mounted = false ∧
      (0 ≤ (removedDeinit io data).1 → (removedDeinit io data).2.diskInit = false) := by
  simp only [removedDeinit]
  split
  · rename_i hinit
    split
    · rename_i hret
      exact ⟨h, hmounted, fun hpos => absurd hret (Int.not_lt.mpr hpos)⟩
    · refine ⟨?_, hmounted, fun _ => rfl⟩
      apply h.concat .ready .absent _ rfl _ rfl
      · simp [phaseOf, hmounted, hinit]
      · simp [phaseOf, hmounted]
  · rename_i hinit
    exact ⟨h, hmounted, fun _ => Bool.eq_false_iff.mpr hinit⟩

theorem ordered_sdCardRemoved (io : Io) {data : SdCardData} (h : Ordered data) :
    Ordered (sdCardRemoved io data).2 ∧
      (0 ≤ (sdCardRemoved io data).1 →
        (sdCardRemoved io data).2.diskInit = false ∧
        (sdCardRemoved io data).2.mounted = false) := by
  obtain ⟨hfirst, hmounted⟩ := ordered_removedUnmount io h
  simp only [sdCardRemoved]
  split
  · rename_i hret
    exact ⟨hfirst, fun hpos => absurd hret (Int.not_lt.mpr hpos)⟩
  · rename_i hret
    obtain ⟨hsecond, hmounted', hinit⟩ :=
      ordered_removedDeinit io hfirst (hmounted (Int.not_lt.mp hret))
    exact ⟨hsecond, fun hpos => ⟨hinit hpos, hmounted'⟩⟩

/-- The card is as the slot was when the handler ran last, if it did all of its
work then. -/
structure Good (s : State) : Prop where
  ordered : Ordered s.data
  settled : s.data.init = true → Settled s.slot
  follows : 0 ≤ s.result → ∀ present ∈ s.slot.seen.getLast?,
    s.data.diskInit = present ∧ s.data.mounted = present

theorem good_initial (present : Bool) : Good (initial present) where
  ordered := ⟨rfl, Option.some_ne_none _⟩
  settled h := nomatch h
  follows _ _ h := nomatch h

theorem ordered_sdCardWorkHandler (present : Bool) (io : Io) {data : SdCardData}
    (h : Ordered data) :
    Ordered (sdCardWorkHandler present io data).2 ∧
      (0 ≤ (sdCardWorkHandler present io data).1 →
        (sdCardWorkHandler present io data).2.diskInit = present ∧
        (sdCardWorkHandler present io data).2.mounted = present) := by
  cases present with
  | true => exact ordered_sdCardInserted io h
  | false => exact ordered_sdCardRemoved io h

theorem good_step (s : State) (event : Event) (hs : Good s) : Good (step s event) := by
  obtain ⟨hordered, hsettled, hfollows⟩ := hs
  cases event with
  | slot now present =>
      simp only [step]
      split
      · exact ⟨hordered, fun hinit => settled_step debounce s.slot _ (hsettled hinit), hfollows⟩
      · rename_i hinit
        exact ⟨hordered, fun h => absurd h hinit, hfollows⟩
  | init now enable =>
      simp only [step, sdCardInit]
      split
      · exact ⟨hordered, hsettled, hfollows⟩
      split
      · exact ⟨hordered, hsettled, hfollows⟩
      · exact ⟨⟨hordered.calls, hordered.phase⟩,
          fun _ hpending => absurd (Library.DelayedWork.schedule_pending now 0 _) hpending,
          hfollows⟩
  | timeout now =>
      exact ⟨hordered, fun hinit => settled_step debounce s.slot (.timeout now) (hsettled hinit),
        hfollows⟩
  | handle io =>
      simp only [step]
      split
      · rename_i hqueued
        obtain ⟨hordered', hfollows'⟩ := ordered_sdCardWorkHandler s.slot.current io hordered
        refine ⟨hordered', ?_, ?_⟩
        · intro _
          exact settled_handle hqueued debounce
        · intro hpos present hpresent
          rw [step_handle hqueued, List.getLast?_concat] at hpresent
          cases hpresent
          exact hfollows' hpos
      · exact ⟨hordered, hsettled, hfollows⟩

/-- In every run, whatever fails, the disk is initialized before the file system
is mounted, the recorder is told of mounted cards only, and all of it is undone in
the opposite order; and once nothing is pending, the card is as the slot is if the
handler did all of its work in its last run. -/
theorem card_follows_slot (present : Bool) (events : List Event) :
    let s := run step (initial present) events
    Phase.absent.afterAll s.data.calls = phaseOf s.data ∧ phaseOf s.data ≠ none ∧
      (s.data.init = true → ¬ s.slot.work.Pending →
        s.slot.seen.getLast? = some s.slot.current ∧
          (0 ≤ s.result →
            s.data.diskInit = s.slot.current ∧ s.data.mounted = s.slot.current)) := by
  have hgood := invariant_run_of_step good_step (good_initial present) events
  refine ⟨hgood.ordered.calls, hgood.ordered.phase, ?_⟩
  intro hinit hpending
  have hseen := hgood.settled hinit hpending
  exact ⟨hseen, fun hresult => hgood.follows hresult _ hseen⟩

end ZeusLe.SdCard
