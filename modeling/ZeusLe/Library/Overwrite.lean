import Mathlib.Data.List.Basic

/-!
A piece of memory that is written part by part, together with the indices that
were written. A write past its end has an index but no place.
-/

namespace ZeusLe.Library.Overwrite

universe u

variable {α : Type u}

/-- `xs` in place of what stands from `off` on. -/
def put : List α → Nat → List α → List α
  | [], _, _ => []
  | a :: cells, 0, [] => a :: cells
  | _ :: cells, 0, x :: xs => x :: put cells 0 xs
  | a :: cells, off + 1, xs => a :: put cells off xs

structure Buffer (α : Type u) where
  cells : List α
  written : List Nat
deriving DecidableEq, Repr

def Buffer.fresh (cells : List α) : Buffer α :=
  ⟨cells, []⟩

def Buffer.write (b : Buffer α) (off : Nat) (xs : List α) : Buffer α :=
  ⟨put b.cells off xs, b.written ++ List.range' off xs.length⟩

/-- Only the first `n` cells were written. -/
def Buffer.Within (n : Nat) (b : Buffer α) : Prop :=
  ∀ i ∈ b.written, i < n

/-- Writes into the first `n` cells lead from one buffer to the other. -/
inductive Writes (n : Nat) (b : Buffer α) : Buffer α → Prop where
  | refl : Writes n b b
  | write {b' : Buffer α} {off : Nat} {xs : List α} (h : Writes n b b')
      (hle : off + xs.length ≤ n) : Writes n b (b'.write off xs)

theorem put_nil (cells : List α) (off : Nat) : put cells off [] = cells := by
  induction cells generalizing off with
  | nil => rfl
  | cons a cells ih =>
      cases off with
      | zero => rfl
      | succ off => exact congrArg (a :: ·) (ih off)

theorem put_length (cells : List α) (off : Nat) (xs : List α) :
    (put cells off xs).length = cells.length := by
  induction cells generalizing off xs with
  | nil => rfl
  | cons a cells ih =>
      cases off with
      | zero =>
          cases xs with
          | nil => rfl
          | cons x xs => exact congrArg (· + 1) (ih 0 xs)
      | succ off => exact congrArg (· + 1) (ih off xs)

theorem put_append (as cells : List α) (off : Nat) (xs : List α) :
    put (as ++ cells) (as.length + off) xs = as ++ put cells off xs := by
  induction as with
  | nil => rw [List.length_nil, Nat.zero_add, List.nil_append, List.nil_append]
  | cons a as ih =>
      rw [List.length_cons, Nat.add_right_comm]
      exact congrArg (a :: ·) ih

theorem put_zero_append {bs xs : List α} (h : xs.length = bs.length) (cs : List α) :
    put (bs ++ cs) 0 xs = xs ++ cs := by
  induction bs generalizing xs with
  | nil =>
      rw [List.length_eq_zero_iff.mp h]
      exact put_nil cs 0
  | cons b bs ih =>
      cases xs with
      | nil => cases h
      | cons x xs => exact congrArg (x :: ·) (ih (Nat.succ.inj h))

theorem put_middle (as bs cs : List α) {xs : List α} (h : xs.length = bs.length) :
    put (as ++ (bs ++ cs)) as.length xs = as ++ (xs ++ cs) := by
  have happend := put_append as (bs ++ cs) 0 xs
  rw [Nat.add_zero] at happend
  rw [happend, put_zero_append h]

theorem put_getElem? {off i : Nat} {xs : List α} (hi : i < off ∨ off + xs.length ≤ i)
    (cells : List α) : (put cells off xs)[i]? = cells[i]? := by
  induction cells generalizing off i xs with
  | nil => rfl
  | cons a cells ih =>
      cases off with
      | zero =>
          cases xs with
          | nil => rfl
          | cons x xs =>
              rw [List.length_cons] at hi
              cases i with
              | zero => omega
              | succ i => exact ih (Or.inr (by omega))
      | succ off =>
          cases i with
          | zero => rfl
          | succ i => exact ih (by omega)

theorem within_fresh (n : Nat) (cells : List α) : (Buffer.fresh cells).Within n := by
  intro i hi
  cases hi

theorem within_write {n off : Nat} {b : Buffer α} {xs : List α} (hb : b.Within n)
    (h : off + xs.length ≤ n) : (b.write off xs).Within n := by
  intro i hi
  rcases List.mem_append.mp hi with hold | hnew
  · exact hb i hold
  · rw [List.mem_range'_1] at hnew
    exact Nat.lt_of_lt_of_le hnew.2 h

namespace Writes

variable {n : Nat} {b b' b'' : Buffer α}

theorem trans (h : Writes n b b') (h' : Writes n b' b'') : Writes n b b'' := by
  induction h' with
  | refl => exact h
  | write _ hle ih => exact ih.write hle

theorem within (h : Writes n b b') (hb : b.Within n) : b'.Within n := by
  induction h with
  | refl => exact hb
  | write _ hle ih => exact within_write ih hle

theorem length_eq (h : Writes n b b') : b'.cells.length = b.cells.length := by
  induction h with
  | refl => rfl
  | write _ _ ih => exact (put_length _ _ _).trans ih

theorem drop_eq (h : Writes n b b') : b'.cells.drop n = b.cells.drop n := by
  induction h with
  | refl => rfl
  | @write b' off xs _ hle ih =>
      rw [← ih]
      apply List.ext_getElem?
      intro i
      rw [List.getElem?_drop, List.getElem?_drop]
      exact put_getElem? (Or.inr (by omega)) b'.cells

end Writes

end ZeusLe.Library.Overwrite
