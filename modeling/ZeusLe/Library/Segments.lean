import Mathlib.Data.List.Basic

/-!
A byte stream that arrives in segments: a receive call takes a part of the
first segment that has not been taken, and nothing when the stream has ended.
-/

namespace ZeusLe.Library.Segments

universe u

variable {α : Type u}

def recv (n : Nat) : List (List α) → List α × List (List α)
  | [] => ([], [])
  | [] :: segs => recv n segs
  | (a :: seg) :: segs => ((a :: seg).take n, (a :: seg).drop n :: segs)

theorem recv_append (n : Nat) (segs : List (List α)) :
    (recv n segs).1 ++ (recv n segs).2.flatten = segs.flatten := by
  induction segs with
  | nil => rfl
  | cons seg segs ih =>
      cases seg with
      | nil => simpa only [recv, List.flatten_cons, List.nil_append] using ih
      | cons a seg =>
          simp only [recv, List.flatten_cons, ← List.append_assoc, List.take_append_drop]

theorem recv_length_le (n : Nat) (segs : List (List α)) : (recv n segs).1.length ≤ n := by
  induction segs with
  | nil => exact Nat.zero_le n
  | cons seg segs ih =>
      cases seg with
      | nil => exact ih
      | cons a seg => exact List.length_take_le n (a :: seg)

theorem recv_eq_nil {n : Nat} (hn : 0 < n) {segs : List (List α)} (h : (recv n segs).1 = []) :
    segs.flatten = [] := by
  induction segs with
  | nil => rfl
  | cons seg segs ih =>
      cases seg with
      | nil => exact ih h
      | cons a seg =>
          obtain ⟨m, rfl⟩ : ∃ m, n = m + 1 := ⟨n - 1, by omega⟩
          cases h

theorem recv_length_add (n : Nat) (segs : List (List α)) :
    (recv n segs).1.length + (recv n segs).2.flatten.length = segs.flatten.length := by
  rw [← recv_append n segs, List.length_append]

end ZeusLe.Library.Segments
