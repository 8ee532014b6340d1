import Mathlib.Data.List.Basic
import ZeusLe.Library.Run

/-!
Cutting a stream into takes. Blocks of symbols arrive one after the other. A take
begins at a requested time, and a new one begins when the current take is full.
Times are of any type; a block tells at which offset, if any, a time falls in it.
-/

namespace ZeusLe.Library.Takes

open ZeusLe.Library.Run

universe u v

variable {α : Type u} {τ : Type v}

/-- A block of the stream. `cut t` is the offset at which a take requested for
`t` begins, when this block is the one that contains `t`. -/
structure Block (α : Type u) (τ : Type v) where
  symbols : List α
  cut : τ → Option Nat

/-- What the cutter is doing, with the content of the current take. -/
inductive Phase (α : Type u) (τ : Type v) where
  | stopped
  | waitingStart (t : τ)
  | waitingNewTake (t : τ) (current : List α)
  | running (current : List α)

def Phase.current : Phase α τ → Option (List α)
  | .stopped | .waitingStart _ => none
  | .waitingNewTake _ current | .running current => some current

/-- The finished takes, oldest first, and the phase. -/
structure Tape (α : Type u) (τ : Type v) where
  done : List (List α)
  phase : Phase α τ

def Tape.takes (tape : Tape α τ) : List (List α) :=
  tape.done ++ tape.phase.current.toList

/-- Close the current take after `n` symbols of the block and go on in a new one. -/
def Tape.split (done : List (List α)) (current symbols : List α) (n : Nat) : Tape α τ :=
  ⟨done ++ [current ++ symbols.take n], .running (symbols.drop n)⟩

/-- Process one block. A take has at most `capacity` symbols. -/
def Tape.block (capacity : Nat) (tape : Tape α τ) (b : Block α τ) : Tape α τ :=
  match tape.phase with
  | .stopped => tape
  | .waitingStart t =>
      match b.cut t with
      | none => tape
      | some n => ⟨tape.done, .running (b.symbols.drop n)⟩
  | .waitingNewTake t current =>
      match b.cut t with
      | none =>
          if current.length + b.symbols.length ≤ capacity
          then ⟨tape.done, .waitingNewTake t (current ++ b.symbols)⟩
          else Tape.split tape.done current b.symbols (capacity - current.length)
      | some n => Tape.split tape.done current b.symbols (min n (capacity - current.length))
  | .running current =>
      if current.length + b.symbols.length ≤ capacity
      then ⟨tape.done, .running (current ++ b.symbols)⟩
      else Tape.split tape.done current b.symbols (capacity - current.length)

def Tape.start (tape : Tape α τ) (t : τ) : Tape α τ :=
  match tape.phase with
  | .stopped | .waitingStart _ => ⟨tape.done, .waitingStart t⟩
  | .waitingNewTake _ current | .running current => ⟨tape.done, .waitingNewTake t current⟩

def Tape.stop (tape : Tape α τ) : Tape α τ :=
  ⟨tape.takes, .stopped⟩

inductive Input (α : Type u) (τ : Type v) where
  | block (b : Block α τ)
  | start (t : τ)
  | stop
  | idle

def Tape.step (capacity : Nat) (tape : Tape α τ) : Input α τ → Tape α τ
  | .block b => tape.block capacity b
  | .start t => tape.start t
  | .stop => tape.stop
  | .idle => tape

@[simp] theorem takes_split (done : List (List α)) (current symbols : List α) (n : Nat) :
    (Tape.split done current symbols n : Tape α τ).takes =
      done ++ [current ++ symbols.take n, symbols.drop n] := by
  simp [Tape.split, Tape.takes, Phase.current]

theorem flatten_takes_split (done : List (List α)) (current symbols : List α) (n : Nat) :
    (Tape.split done current symbols n : Tape α τ).takes.flatten =
      (done ++ [current]).flatten ++ symbols := by
  simp

theorem flatten_takes_block (capacity : Nat) {tape : Tape α τ} {current : List α}
    (hcurrent : tape.phase.current = some current) (b : Block α τ) :
    (tape.block capacity b).takes.flatten = tape.takes.flatten ++ b.symbols := by
  rcases tape with ⟨done, phase⟩
  have htakes : (done ++ [current]).flatten = (Tape.mk done phase).takes.flatten := by
    rw [Tape.takes, hcurrent]
    rfl
  rcases phase with _ | t | ⟨t, cur⟩ | cur
  · cases hcurrent
  · cases hcurrent
  · obtain rfl : cur = current := Option.some.inj hcurrent
    simp only [Tape.block]
    split
    · split
      · simp [Tape.takes, Phase.current]
      · rw [flatten_takes_split, htakes]
    · rw [flatten_takes_split, htakes]
  · obtain rfl : cur = current := Option.some.inj hcurrent
    simp only [Tape.block]
    split
    · simp [Tape.takes, Phase.current]
    · rw [flatten_takes_split, htakes]

theorem current_isSome_block (capacity : Nat) {tape : Tape α τ}
    (hcurrent : tape.phase.current.isSome) (b : Block α τ) :
    (tape.block capacity b).phase.current.isSome := by
  rcases tape with ⟨done, _ | t | ⟨t, cur⟩ | cur⟩
  · cases hcurrent
  · cases hcurrent
  · simp only [Tape.block]
    split
    · split <;> rfl
    · rfl
  · simp only [Tape.block]
    split <;> rfl

theorem start_takes (tape : Tape α τ) (t : τ) : (tape.start t).takes = tape.takes := by
  rcases tape with ⟨done, _ | t' | ⟨t', cur⟩ | cur⟩ <;> rfl

theorem start_current (tape : Tape α τ) (t : τ) :
    (tape.start t).phase.current = tape.phase.current := by
  rcases tape with ⟨done, _ | t' | ⟨t', cur⟩ | cur⟩ <;> rfl

def Tape.Bounded (capacity : Nat) (tape : Tape α τ) : Prop :=
  ∀ take ∈ tape.takes, take.length ≤ capacity

theorem bounded_split {capacity : Nat} {done : List (List α)} {current symbols : List α}
    {n : Nat} (hdone : ∀ take ∈ done, take.length ≤ capacity)
    (hn : n ≤ capacity - current.length) (hcurrent : current.length ≤ capacity)
    (hsymbols : symbols.length ≤ capacity) :
    (Tape.split done current symbols n : Tape α τ).Bounded capacity := by
  intro take htake
  rw [takes_split] at htake
  simp only [List.mem_append, List.mem_cons, List.not_mem_nil, or_false] at htake
  rcases htake with hold | rfl | rfl
  · exact hdone take hold
  · simp only [List.length_append, List.length_take]
    omega
  · simp only [List.length_drop]
    omega

theorem bounded_block {capacity : Nat} {tape : Tape α τ} (h : tape.Bounded capacity)
    {b : Block α τ} (hb : b.symbols.length ≤ capacity) :
    (tape.block capacity b).Bounded capacity := by
  rcases tape with ⟨done, phase⟩
  have hdone : ∀ take ∈ done, take.length ≤ capacity := fun take htake =>
    h take (List.mem_append_left _ htake)
  have hcur : ∀ current, phase.current = some current → current.length ≤ capacity := by
    intro current hcurrent
    apply h
    simp [Tape.takes, hcurrent]
  rcases phase with _ | t | ⟨t, cur⟩ | cur
  · exact h
  · simp only [Tape.block]
    split
    · exact h
    · intro take htake
      simp only [Tape.takes, Phase.current, Option.toList_some, List.mem_append,
        List.mem_singleton] at htake
      rcases htake with hold | rfl
      · exact hdone take hold
      · simp only [List.length_drop]
        omega
  · simp only [Tape.block]
    split
    · split
      · intro take htake
        simp only [Tape.takes, Phase.current, Option.toList_some, List.mem_append,
          List.mem_singleton] at htake
        rcases htake with hold | rfl
        · exact hdone take hold
        · simpa using ‹_›
      · exact bounded_split hdone (Nat.le_refl _) (hcur cur rfl) hb
    · exact bounded_split hdone (Nat.min_le_right _ _) (hcur cur rfl) hb
  · simp only [Tape.block]
    split
    · intro take htake
      simp only [Tape.takes, Phase.current, Option.toList_some, List.mem_append,
        List.mem_singleton] at htake
      rcases htake with hold | rfl
      · exact hdone take hold
      · simpa using ‹_›
    · exact bounded_split hdone (Nat.le_refl _) (hcur cur rfl) hb

def Input.symbols : Input α τ → List α
  | .block b => b.symbols
  | _ => []

/-- Inputs that do not end the take in progress by themselves. -/
def Input.Continues : Input α τ → Prop
  | .stop => False
  | _ => True

theorem current_isSome_step (capacity : Nat) {tape : Tape α τ}
    (hcurrent : tape.phase.current.isSome) {i : Input α τ} (hi : i.Continues) :
    (tape.step capacity i).phase.current.isSome := by
  cases i with
  | block b => exact current_isSome_block capacity hcurrent b
  | start t => rw [Tape.step, start_current]; exact hcurrent
  | stop => exact hi.elim
  | idle => exact hcurrent

theorem flatten_takes_run (capacity : Nat) {tape : Tape α τ}
    (hcurrent : tape.phase.current.isSome) {inputs : List (Input α τ)}
    (hinputs : ∀ i ∈ inputs, i.Continues) :
    (run (Tape.step capacity) tape inputs).takes.flatten =
      tape.takes.flatten ++ inputs.flatMap Input.symbols := by
  induction inputs generalizing tape with
  | nil => simp
  | cons i inputs ih =>
      have hi : i.Continues := hinputs i (by simp)
      have hflatten : (tape.step capacity i).takes.flatten =
          tape.takes.flatten ++ i.symbols := by
        cases i with
        | block b =>
            obtain ⟨current, hsome⟩ := Option.isSome_iff_exists.mp hcurrent
            exact flatten_takes_block capacity hsome b
        | start t => simp [Tape.step, start_takes, Input.symbols]
        | stop => exact hi.elim
        | idle => simp [Tape.step, Input.symbols]
      rw [run_cons, ih (current_isSome_step capacity hcurrent hi)
        (fun j hj => hinputs j (by simp [hj])), hflatten, List.flatMap_cons, List.append_assoc]

theorem done_prefix_step (capacity : Nat) (tape : Tape α τ) (i : Input α τ) :
    tape.done <+: (tape.step capacity i).done := by
  rcases tape with ⟨done, phase⟩
  cases i with
  | block b =>
      rcases phase with _ | t | ⟨t, cur⟩ | cur <;> simp only [Tape.step, Tape.block]
      · exact List.prefix_refl _
      · split <;> exact List.prefix_refl _
      · split
        · split
          · exact List.prefix_refl _
          · exact List.prefix_append _ _
        · exact List.prefix_append _ _
      · split
        · exact List.prefix_refl _
        · exact List.prefix_append _ _
  | start t => rcases phase with _ | t' | ⟨t', cur⟩ | cur <;> exact List.prefix_refl _
  | stop => exact List.prefix_append _ _
  | idle => exact List.prefix_refl _

theorem done_prefix_run (capacity : Nat) (tape : Tape α τ) (inputs : List (Input α τ)) :
    tape.done <+: (run (Tape.step capacity) tape inputs).done := by
  induction inputs generalizing tape with
  | nil => exact List.prefix_refl _
  | cons i inputs ih => exact (done_prefix_step capacity tape i).trans (ih _)

theorem flatten_drop_takes_run (capacity : Nat) {done : List (List α)} {phase : Phase α τ}
    {current : List α} (hcurrent : phase.current = some current) {inputs : List (Input α τ)}
    (hinputs : ∀ i ∈ inputs, i.Continues) :
    ((run (Tape.step capacity) ⟨done, phase⟩ inputs).takes.drop done.length).flatten =
      current ++ inputs.flatMap Input.symbols := by
  have hsome : (Tape.mk done phase).phase.current.isSome := by
    simp [hcurrent]
  have hflatten := flatten_takes_run capacity hsome hinputs
  obtain ⟨later, hlater⟩ := done_prefix_run capacity ⟨done, phase⟩ inputs
  have htakes : (run (Tape.step capacity) ⟨done, phase⟩ inputs).takes =
      done ++ (later ++
        (run (Tape.step capacity) ⟨done, phase⟩ inputs).phase.current.toList) := by
    rw [Tape.takes, ← hlater, List.append_assoc]
  rw [htakes, List.flatten_append, Tape.takes, hcurrent] at hflatten
  rw [htakes, List.drop_left]
  simpa [List.append_assoc] using hflatten

theorem bounded_step {capacity : Nat} {tape : Tape α τ} (h : tape.Bounded capacity)
    {i : Input α τ} (hi : i.symbols.length ≤ capacity) :
    (tape.step capacity i).Bounded capacity := by
  cases i with
  | block b => exact bounded_block h hi
  | start t =>
      intro take htake
      rw [Tape.step, start_takes] at htake
      exact h take htake
  | stop =>
      intro take htake
      exact h take (by simpa [Tape.step, Tape.stop, Tape.takes, Phase.current] using htake)
  | idle => exact h

theorem bounded_run {capacity : Nat} {tape : Tape α τ} (h : tape.Bounded capacity)
    {inputs : List (Input α τ)} (hinputs : ∀ i ∈ inputs, i.symbols.length ≤ capacity) :
    (run (Tape.step capacity) tape inputs).Bounded capacity := by
  induction inputs generalizing tape with
  | nil => exact h
  | cons i inputs ih =>
      exact ih (bounded_step h (hinputs i (by simp))) (fun j hj => hinputs j (by simp [hj]))

/-- Inputs that request nothing. -/
def Input.Quiet : Input α τ → Prop
  | .block _ | .idle => True
  | .start _ | .stop => False

/-- Inputs that request nothing and in which `t` does not fall. -/
def Input.Misses (t : τ) : Input α τ → Prop
  | .block b => b.cut t = none
  | .idle => True
  | .start _ | .stop => False

theorem Input.Misses.quiet {t : τ} {i : Input α τ} (h : i.Misses t) : i.Quiet := by
  cases i with
  | block b => trivial
  | start t' => exact h
  | stop => exact h
  | idle => trivial

/-- Of `total` symbols in a row, `current` are in the last of several takes of
size `capacity`. -/
def Remainder (capacity total current : Nat) : Prop :=
  0 < current ∧ current ≤ capacity ∧ ∃ full, total = capacity * full + current

theorem Remainder.eq_total {capacity total current : Nat} (h : Remainder capacity total current)
    (htotal : total ≤ capacity) : current = total := by
  obtain ⟨hpos, _, full, rfl⟩ := h
  rcases Nat.eq_zero_or_pos full with rfl | hfull
  · simp
  · have := Nat.mul_le_mul_left capacity hfull
    omega

theorem remainder_step {capacity total current added : Nat} (h : Remainder capacity total current) :
    (current + added ≤ capacity → Remainder capacity (total + added) (current + added)) ∧
      (capacity < current + added → added ≤ capacity →
        Remainder capacity (total + added) (added - (capacity - current))) := by
  obtain ⟨hpos, hle, full, rfl⟩ := h
  constructor
  · intro hroom
    exact ⟨by omega, hroom, full, by omega⟩
  · intro hfull hadded
    refine ⟨by omega, by omega, full + 1, ?_⟩
    rw [Nat.mul_add_one]
    omega

theorem running_run {capacity : Nat} {inputs : List (Input α τ)}
    (hinputs : ∀ i ∈ inputs, i.Quiet ∧ i.symbols.length ≤ capacity) (done : List (List α))
    {current : List α} {total : Nat} (h : Remainder capacity total current.length) :
    ∃ done' current', run (Tape.step capacity) ⟨done, .running current⟩ inputs =
        ⟨done', .running current'⟩ ∧
      Remainder capacity (total + (inputs.flatMap Input.symbols).length) current'.length := by
  induction inputs generalizing done current total with
  | nil => exact ⟨done, current, rfl, h⟩
  | cons i inputs ih =>
      obtain ⟨hquiet, hlen⟩ := hinputs i (by simp)
      have hrest := fun j hj => hinputs j (List.mem_cons_of_mem i hj)
      rw [run_cons, List.flatMap_cons, List.length_append, ← Nat.add_assoc]
      cases i with
      | block b =>
          simp only [Input.symbols] at hlen ⊢
          simp only [Tape.step, Tape.block]
          split
          · rename_i hroom
            apply ih hrest
            rw [List.length_append]
            exact (remainder_step h).1 hroom
          · rename_i hfull
            apply ih hrest
            rw [List.length_drop]
            exact (remainder_step h).2 (by omega) hlen
      | start t' => exact hquiet.elim
      | stop => exact hquiet.elim
      | idle => exact ih hrest done h

theorem waitingNewTake_run {capacity : Nat} {t : τ} {inputs : List (Input α τ)}
    (hinputs : ∀ i ∈ inputs, i.Misses t ∧ i.symbols.length ≤ capacity) (done : List (List α))
    {current : List α} (hcurrent : current.length ≤ capacity) :
    (current.length + (inputs.flatMap Input.symbols).length ≤ capacity ∧
        run (Tape.step capacity) ⟨done, .waitingNewTake t current⟩ inputs =
          ⟨done, .waitingNewTake t (current ++ inputs.flatMap Input.symbols)⟩) ∨
      (capacity < current.length + (inputs.flatMap Input.symbols).length ∧
        ∃ done' current', run (Tape.step capacity) ⟨done, .waitingNewTake t current⟩ inputs =
            ⟨done', .running current'⟩ ∧
          Remainder capacity (current.length + (inputs.flatMap Input.symbols).length)
            current'.length) := by
  induction inputs generalizing current with
  | nil => exact Or.inl ⟨by simpa using hcurrent, by simp⟩
  | cons i inputs ih =>
      obtain ⟨hmiss, hlen⟩ := hinputs i (by simp)
      have hrest := fun j hj => hinputs j (List.mem_cons_of_mem i hj)
      rw [run_cons, List.flatMap_cons, List.length_append, ← Nat.add_assoc, ← List.append_assoc,
        ← List.length_append]
      cases i with
      | block b =>
          have hcut : b.cut t = none := hmiss
          simp only [Input.symbols] at hlen ⊢
          simp only [Tape.step, Tape.block, hcut]
          by_cases hroom : current.length + b.symbols.length ≤ capacity
          · rw [if_pos hroom]
            exact ih hrest (by rwa [List.length_append])
          · rw [if_neg hroom]
            -- the roll-over loses the request
            have hremainder : Remainder capacity (current ++ b.symbols).length
                (b.symbols.drop (capacity - current.length)).length := by
              rw [List.length_append, List.length_drop]
              exact ⟨by omega, by omega, 1, by omega⟩
            exact Or.inr ⟨by rw [List.length_append]; omega,
              running_run (fun j hj => ⟨(hrest j hj).1.quiet, (hrest j hj).2⟩)
                (done ++ [current ++ b.symbols.take (capacity - current.length)])
                hremainder⟩
      | start t' => exact hmiss.elim
      | stop => exact hmiss.elim
      | idle => simpa [Input.symbols, Tape.step] using ih hrest hcurrent

/-- The block ends the take in progress at offset `n`, and a new take begins
there. -/
def Tape.CutsAt (capacity : Nat) (tape : Tape α τ) (b : Block α τ) (n : Nat) : Prop :=
  ∃ current, tape.phase.current = some current ∧
    (tape.block capacity b).takes =
      tape.done ++ [current ++ b.symbols.take n, b.symbols.drop n]

theorem split_inj {current symbols : List α} {m n : Nat} (hm : m ≤ symbols.length)
    (hn : n ≤ symbols.length)
    (h : [current ++ symbols.take m, symbols.drop m] =
      [current ++ symbols.take n, symbols.drop n]) : m = n := by
  have hdrop := congrArg (fun l : List (List α) => l.flatten.length - (l.head!).length) h
  simp only [List.flatten_cons, List.flatten_nil, List.append_nil, List.length_append,
    List.head!_cons, List.length_drop, List.length_take] at hdrop
  omega

theorem cutsAt_split {capacity : Nat} {tape : Tape α τ} {b : Block α τ} {current : List α}
    {m n : Nat} (hcurrent : tape.phase.current = some current)
    (hblock : tape.block capacity b = Tape.split tape.done current b.symbols m)
    (hm : m ≤ b.symbols.length) (hn : n ≤ b.symbols.length) :
    tape.CutsAt capacity b n ↔ m = n := by
  constructor
  · rintro ⟨current', hcurrent', htakes⟩
    obtain rfl : current' = current := Option.some.inj (hcurrent'.symm.trans hcurrent)
    rw [hblock, takes_split] at htakes
    exact split_inj hm hn (List.append_cancel_left htakes)
  · rintro rfl
    exact ⟨current, hcurrent, by rw [hblock, takes_split]⟩

theorem cutsAt_waitingNewTake {capacity : Nat} {t : τ} {done : List (List α)}
    {current : List α} (hcurrent : current.length ≤ capacity) {b : Block α τ} {n : Nat}
    (hcut : b.cut t = some n) (hn : n ≤ b.symbols.length) :
    (Tape.mk done (.waitingNewTake t current)).CutsAt capacity b n ↔
      current.length + n ≤ capacity := by
  rw [cutsAt_split (m := min n (capacity - current.length)) rfl
    (by simp only [Tape.block, hcut]) (by omega) hn]
  omega

theorem cutsAt_running {capacity : Nat} {done : List (List α)} {current : List α}
    (hcurrent : current.length ≤ capacity) {b : Block α τ} {n : Nat}
    (hn : n ≤ b.symbols.length) :
    (Tape.mk done (.running current) : Tape α τ).CutsAt capacity b n ↔
      current.length + n = capacity ∧ n < b.symbols.length := by
  by_cases hroom : current.length + b.symbols.length ≤ capacity
  · constructor
    · rintro ⟨current', hcurrent', htakes⟩
      obtain rfl : current' = current := Option.some.inj hcurrent'.symm
      have hlen := congrArg List.length htakes
      simp [Tape.block, if_pos hroom, Tape.takes, Phase.current] at hlen
    · omega
  · rw [cutsAt_split (m := capacity - current.length) rfl
      (by simp only [Tape.block, if_neg hroom]) (by omega) hn]
    omega

theorem Remainder.dvd_add_iff {capacity total current n : Nat}
    (h : Remainder capacity total current) (hn : n < capacity) :
    capacity ∣ total + n ↔ current + n = capacity := by
  obtain ⟨hpos, hle, full, rfl⟩ := h
  rw [Nat.add_assoc, Nat.dvd_add_right (Nat.dvd_mul_right _ _)]
  constructor
  · rintro ⟨k, hk⟩
    have hk2 : k < 2 := by
      by_contra hge
      have := Nat.mul_le_mul_left capacity (Nat.le_of_not_lt hge)
      omega
    have hk0 : k ≠ 0 := by
      rintro rfl
      omega
    obtain rfl : k = 1 := by omega
    omega
  · intro heq
    exact ⟨1, by rw [heq, Nat.mul_one]⟩

/-- When a take requested for `t` really begins at its offset in the block that
contains `t`: all that came before fits, or a roll-over falls on the same symbol. -/
theorem cutsAt_run_iff {capacity : Nat} {t : τ} {inputs : List (Input α τ)}
    (hinputs : ∀ i ∈ inputs, i.Misses t ∧ i.symbols.length ≤ capacity) (done : List (List α))
    {current : List α} (hcurrent : current.length ≤ capacity) {b : Block α τ} {n total : Nat}
    (hcut : b.cut t = some n) (hn : n ≤ b.symbols.length) (hb : b.symbols.length ≤ capacity)
    (htotal : total = current.length + (inputs.flatMap Input.symbols).length) :
    (run (Tape.step capacity) ⟨done, .waitingNewTake t current⟩ inputs).CutsAt capacity b n ↔
      total + n ≤ capacity ∨ (capacity < total ∧ capacity ∣ total + n ∧ n < b.symbols.length) := by
  rcases waitingNewTake_run hinputs done hcurrent with
    ⟨hle, hrun⟩ | ⟨hlt, done', current', hrun, hremainder⟩
  · rw [hrun, cutsAt_waitingNewTake (by rwa [List.length_append]) hcut hn, List.length_append]
    omega
  · rw [← htotal] at hlt hremainder
    rw [hrun, cutsAt_running hremainder.2.1 hn]
    constructor
    · rintro ⟨heq, hinside⟩
      exact Or.inr ⟨hlt, (hremainder.dvd_add_iff (by omega)).mpr heq, hinside⟩
    · rintro (hle | ⟨_, hdvd, hinside⟩)
      · omega
      · exact ⟨(hremainder.dvd_add_iff (by omega)).mp hdvd, hinside⟩

/-- The phase that waits for `t`, with a take in progress or without one. -/
def Phase.waiting (t : τ) : Option (List α) → Phase α τ
  | none => .waitingStart t
  | some current => .waitingNewTake t current

theorem start_eq_waiting (tape : Tape α τ) (t : τ) :
    tape.start t = ⟨tape.done, .waiting t tape.phase.current⟩ := by
  rcases tape with ⟨done, _ | t' | ⟨t', current⟩ | current⟩ <;> rfl

/-- What the block adds to the take in progress is within the capacity. -/
def Tape.Fits (capacity : Nat) (tape : Tape α τ) (b : Block α τ) : Prop :=
  match tape.phase with
  | .stopped | .waitingStart _ => True
  | .waitingNewTake t current =>
      current.length + (b.cut t).getD b.symbols.length ≤ capacity
  | .running current => current.length + b.symbols.length ≤ capacity

theorem block_running {capacity : Nat} {done : List (List α)} {current : List α}
    {b : Block α τ} (hfits : (Tape.mk done (.running current)).Fits capacity b) :
    (Tape.mk done (.running current)).block capacity b =
      ⟨done, .running (current ++ b.symbols)⟩ :=
  if_pos hfits

theorem block_waiting_miss {capacity : Nat} {t : τ} {done : List (List α)}
    {current : Option (List α)} {b : Block α τ} (hcut : b.cut t = none)
    (hfits : (Tape.mk done (.waiting t current)).Fits capacity b) :
    (Tape.mk done (.waiting t current)).block capacity b =
      ⟨done, .waiting t (current.map (· ++ b.symbols))⟩ := by
  rcases current with _ | current
  · simp only [Phase.waiting, Tape.block, hcut, Option.map_none]
  · simp only [Phase.waiting, Tape.Fits, hcut, Option.getD_none] at hfits
    simp only [Phase.waiting, Tape.block, hcut, if_pos hfits, Option.map_some]

theorem block_waiting_cut {capacity : Nat} {t : τ} {done : List (List α)}
    {current : Option (List α)} {b : Block α τ} {n : Nat} (hcut : b.cut t = some n)
    (hfits : (Tape.mk done (.waiting t current)).Fits capacity b) :
    (Tape.mk done (.waiting t current)).block capacity b =
      ⟨done ++ (current.map (· ++ b.symbols.take n)).toList, .running (b.symbols.drop n)⟩ := by
  rcases current with _ | current
  · simp [Phase.waiting, Tape.block, hcut]
  · simp only [Phase.waiting, Tape.Fits, hcut, Option.getD_some] at hfits
    have hmin : min n (capacity - current.length) = n := by omega
    simp only [Phase.waiting, Tape.block, hcut, Tape.split, hmin, Option.map_some,
      Option.toList_some]

theorem running_blocks_run {capacity : Nat} {done : List (List α)} {current : List α}
    {blocks : List (Block α τ)}
    (hfits : Along (Tape.block capacity) (Tape.Fits capacity) ⟨done, .running current⟩ blocks) :
    run (Tape.block capacity) ⟨done, .running current⟩ blocks =
      ⟨done, .running (current ++ blocks.flatMap Block.symbols)⟩ := by
  induction blocks generalizing current with
  | nil => simp
  | cons b blocks ih =>
      obtain ⟨hb, hrest⟩ := hfits
      rw [block_running hb] at hrest
      rw [run_cons, block_running hb, ih hrest, List.flatMap_cons, List.append_assoc]

def Input.block? : Input α τ → Option (Block α τ)
  | .block b => some b
  | _ => none

theorem run_quiet (capacity : Nat) {inputs : List (Input α τ)} (hquiet : ∀ i ∈ inputs, i.Quiet)
    (tape : Tape α τ) :
    run (Tape.step capacity) tape inputs =
      run (Tape.block capacity) tape (inputs.filterMap Input.block?) := by
  induction inputs generalizing tape with
  | nil => rfl
  | cons i inputs ih =>
      have hi := hquiet i (by simp)
      have hrest := fun j hj => hquiet j (List.mem_cons_of_mem i hj)
      cases i with
      | block b => exact ih hrest _
      | start t => exact hi.elim
      | stop => exact hi.elim
      | idle => exact ih hrest tape

def Tape.InputFits (capacity : Nat) (tape : Tape α τ) (i : Input α τ) : Prop :=
  ∀ b, i.block? = some b → tape.Fits capacity b

theorem along_quiet {capacity : Nat} {inputs : List (Input α τ)} (hquiet : ∀ i ∈ inputs, i.Quiet)
    {tape : Tape α τ}
    (hfits : Along (Tape.step capacity) (Tape.InputFits capacity) tape inputs) :
    Along (Tape.block capacity) (Tape.Fits capacity) tape (inputs.filterMap Input.block?) := by
  induction inputs generalizing tape with
  | nil => trivial
  | cons i inputs ih =>
      have hi := hquiet i (by simp)
      have hrest := fun j hj => hquiet j (List.mem_cons_of_mem i hj)
      obtain ⟨hhead, htail⟩ := hfits
      cases i with
      | block b => exact ⟨hhead b rfl, ih hrest htail⟩
      | start t => exact hi.elim
      | stop => exact hi.elim
      | idle => exact ih hrest htail

end ZeusLe.Library.Takes
