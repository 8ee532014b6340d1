import Mathlib.Data.List.Basic

/-!
The events of the battery charger, `mfd_bq2515x.c`: the flag registers of the
device, the mask and the flags that the driver keeps, and its callbacks.
-/

namespace ZeusLe.ChargerMfd

/-- The four flag or mask registers as one little endian integer. -/
abbrev EventMask := BitVec 32

abbrev CallbackList (Callback : Type) := { list : List Callback // list.Nodup }

/-- The callbacks of `gpio_utils.h`, with what `gpio_manage_callback` does to a
list of them. -/
structure GpioUtils (Callback : Type) where
  pinMask : Callback → EventMask
  manageCallback : CallbackList Callback → Callback → Bool → Int × CallbackList Callback
  add_ok : ∀ list callback, (manageCallback list callback true).1 = 0
  mem_add : ∀ list callback other,
    other ∈ (manageCallback list callback true).2.val ↔ other = callback ∨ other ∈ list.val
  remove_ok : ∀ list callback,
    (manageCallback list callback false).1 = 0 ↔ callback ∈ list.val
  mem_remove : ∀ list callback other,
    other ∈ (manageCallback list callback false).2.val ↔ other ∈ list.val ∧ other ≠ callback

/-- What happens to events: the device raises some, or a callback is called
with some. -/
inductive Happening (Callback : Type) where
  | raised (events : EventMask)
  | delivered (callback : Callback) (pins : EventMask)
  deriving DecidableEq, Repr

/-- The statement of `mfd_bq2515x_add_callback` or of
`mfd_bq2515x_remove_callback` that is executed next. -/
inductive Call (Callback : Type) where
  | addUnmask (callback : Callback)
  | addWriteIntMask (callback : Callback)
  | addSubmit (callback : Callback)
  | addManage (callback : Callback)
  | removeManage (callback : Callback)
  | removeMask (callback : Callback)
  | removeWriteIntMask (callback : Callback)
  | returned (ret : Int)
  deriving DecidableEq, Repr

structure Charger (Callback : Type) where
  /-- The flag registers of the device. -/
  flags : EventMask
  callbacks : CallbackList Callback
  intMask : EventMask
  pendingFlags : EventMask
  /-- Whether `int_work` has been submitted. -/
  intWork : Bool
  call : Call Callback
  /-- Newest first. -/
  trace : List (Happening Callback)

inductive Input (Callback : Type) where
  | event (events : EventMask)
  | interrupt
  /-- The work item runs; `io` is the result of reading the flags. -/
  | work (io : Int)
  | addCallback (callback : Callback)
  | removeCallback (callback : Callback)
  /-- The next statement of the call; `io` is the result of writing the mask. -/
  | statement (io : Int)
  deriving DecidableEq, Repr

section

variable {Callback : Type} (gpio : GpioUtils Callback)

def gpioFireCallbacks (pins : EventMask) :
    List Callback → List (Happening Callback) → List (Happening Callback)
  | [], trace => trace
  | callback :: list, trace =>
      gpioFireCallbacks pins list
        (if gpio.pinMask callback &&& pins ≠ 0 then
          .delivered callback (gpio.pinMask callback &&& pins) :: trace
        else trace)

/-- Reading the flag registers clears them. A failure submits the work item
again. -/
def bq2515xIntWorkHandler (io : Int) (s : Charger Callback) : Charger Callback :=
  if io ≠ 0 then { s with intWork := true }
  else
    let flags := s.flags ||| s.pendingFlags
    let fired := flags &&& ~~~s.intMask
    { s with
      flags := 0
      pendingFlags := flags &&& s.intMask
      trace := if fired ≠ 0 then gpioFireCallbacks gpio fired s.callbacks.val s.trace else s.trace }

def statement (io : Int) (s : Charger Callback) : Charger Callback :=
  match s.call with
  | .addUnmask callback =>
      { s with
        intMask := s.intMask &&& ~~~gpio.pinMask callback
        call := .addWriteIntMask callback }
  | .addWriteIntMask callback =>
      { s with call := if io ≠ 0 then .returned io else .addSubmit callback }
  | .addSubmit callback => { s with intWork := true, call := .addManage callback }
  | .addManage callback =>
      let (ret, callbacks) := gpio.manageCallback s.callbacks callback true
      { s with callbacks := callbacks, call := .returned ret }
  | .removeManage callback =>
      let (ret, callbacks) := gpio.manageCallback s.callbacks callback false
      { s with callbacks := callbacks, call := if ret ≠ 0 then .returned ret else .removeMask callback }
  | .removeMask callback =>
      { s with
        intMask := s.intMask ||| gpio.pinMask callback
        call := .removeWriteIntMask callback }
  | .removeWriteIntMask _ => { s with call := .returned io }
  | .returned _ => s

/-- The calls follow each other; the device and the work queue go on between
their statements. -/
def step (s : Charger Callback) : Input Callback → Charger Callback
  | .event events =>
      { s with flags := s.flags ||| events, trace := .raised events :: s.trace }
  | .interrupt => { s with intWork := true }
  | .work io => if s.intWork then bq2515xIntWorkHandler gpio io { s with intWork := false } else s
  | .addCallback callback =>
      match s.call with
      | .returned _ => { s with call := .addUnmask callback }
      | _ => s
  | .removeCallback callback =>
      match s.call with
      | .returned _ => { s with call := .removeManage callback }
      | _ => s
  | .statement io => statement gpio io s

end

/-- After `mfd_bq2515x_init`. -/
def mfdInitial (Callback : Type) : Charger Callback where
  flags := 0
  callbacks := ⟨[], List.nodup_nil⟩
  intMask := 0xffffffff
  pendingFlags := 0
  intWork := false
  call := .returned 0
  trace := []

/-- The list of `gpio_utils.h`, whose newest callback comes first. -/
def gpioUtils (pinMask : Nat → EventMask) : GpioUtils Nat where
  pinMask := pinMask
  manageCallback list callback set :=
    if set then
      (0, ⟨callback :: list.val.erase callback,
        List.nodup_cons.mpr ⟨list.property.not_mem_erase, list.property.erase callback⟩⟩)
    else
      (if callback ∈ list.val then 0 else -22, ⟨list.val.erase callback, list.property.erase callback⟩)
  add_ok := fun _ _ => rfl
  mem_add := by
    intro list callback other
    simp only [if_true, List.mem_cons]
    rcases Decidable.em (other = callback) with heq | hne
    · simp [heq]
    · simp [hne, List.mem_erase_of_ne hne]
  remove_ok := by
    intro list callback
    simp only [Bool.false_eq_true, if_false]
    split <;> simp_all
  mem_remove := by
    intro list callback other
    simp only [Bool.false_eq_true, if_false]
    rw [list.property.mem_erase_iff, and_comm]

end ZeusLe.ChargerMfd
