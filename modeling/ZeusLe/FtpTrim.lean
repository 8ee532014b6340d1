import Mathlib.Data.List.GetD
import Mathlib.Logic.Function.Basic
import ZeusLe.FtpPath
import ZeusLe.Library.Loop
import ZeusLe.Library.Word

/-!
`lftpd_string_trim` in the memory around its string, with the addresses that it
reads or writes.
-/

namespace ZeusLe.FtpTrim

open ZeusLe.Library.Loop
open ZeusLe.FtpLine
open ZeusLe.FtpPath (isspace)

/-- Addresses are counted from the beginning of the string and wrap around, as
pointers and `size_t` do. -/
structure Memory where
  cell : UInt32 → UInt8
  touched : List UInt32

def Memory.read (m : Memory) (a : UInt32) : Memory :=
  { m with touched := m.touched ++ [a] }

def Memory.clear (m : Memory) (a : UInt32) : Memory :=
  { cell := Function.update m.cell a 0, touched := m.touched ++ [a] }

/-- A round of `strlen`. -/
def strlenRound (s : UInt32) : Nat × Memory → (Nat × Memory) ⊕ (Nat × Memory)
  | (n, m) =>
      let m := m.read (s + .ofNat n)
      if m.cell (s + .ofNat n) = 0 then .inr (n, m) else .inl (n + 1, m)

/-- The first loop: `s` moves together with `i`. -/
def skipLoop : Nat → UInt32 → UInt32 → Memory → UInt32 × Memory
  | 0, _, s, m => (s, m)
  | len + 1, i, s, m =>
      let m := m.read (s + i)
      if isspace (m.cell (s + i)) then skipLoop len (i + 1) (s + 1) m else (s, m)

/-- A round of the second loop. Every `size_t` is at least zero. -/
def clearRound (s : UInt32) : UInt32 × Memory → (UInt32 × Memory) ⊕ Memory
  | (i, m) =>
      let m := m.read (s + i)
      if isspace (m.cell (s + i)) then .inl (i - 1, m.clear (s + i)) else .inr m

/-- The result, if none of the loops takes more rounds than `fuel`. -/
def lftpdStringTrim (fuel : Nat) (s : UInt32) (m : Memory) : Option (UInt32 × Memory) := do
  let (len, m) ← loop (strlenRound s) fuel (0, m)
  let (s, m) := skipLoop len 0 s m
  let (len, m) ← loop (strlenRound s) fuel (0, m)
  if len = 0 then some (s, m)
  else
    let m ← loop (clearRound s) fuel (.ofNat (len - 1), m)
    some (s, m)

theorem mem_touched_read (m : Memory) (a b : UInt32) :
    b ∈ (m.read a).touched ↔ b ∈ m.touched ∨ b = a := by
  rw [Memory.read, List.mem_append, List.mem_singleton]

theorem mem_touched_clear (m : Memory) (a b : UInt32) :
    b ∈ (m.clear a).touched ↔ b ∈ m.touched ∨ b = a := by
  rw [Memory.clear, List.mem_append, List.mem_singleton]

theorem strlenRound_end {s : UInt32} {n : Nat} {m : Memory} (h : m.cell (s + .ofNat n) = 0) :
    strlenRound s (n, m) = .inr (n, m.read (s + .ofNat n)) :=
  if_pos h

theorem strlenRound_next {s : UInt32} {n : Nat} {m : Memory} (h : m.cell (s + .ofNat n) ≠ 0) :
    strlenRound s (n, m) = .inl (n + 1, m.read (s + .ofNat n)) :=
  if_neg h

theorem strlen_ends {s : UInt32} {n : Nat} {m : Memory} (hend : m.cell (s + .ofNat n) = 0) :
    Ends (strlenRound s) (0, m) := by
  have hfrom : ∀ k j m', m'.cell = m.cell → j + k = n → Ends (strlenRound s) (j, m') := by
    intro k
    induction k with
    | zero =>
        rintro j m' hcell hj
        rw [← hcell, ← hj, Nat.add_zero] at hend
        exact ends_of_result (strlenRound_end hend)
    | succ k ih =>
        rintro j m' hcell hj
        rcases Classical.em (m'.cell (s + .ofNat j) = 0) with hzero | hzero
        · exact ends_of_result (strlenRound_end hzero)
        · rw [ends_iff_next (strlenRound_next hzero)]
          exact ih (j + 1) _ hcell (by omega)
  exact hfrom n 0 m rfl (Nat.zero_add n)

theorem strlen_result {s : UInt32} {n : Nat} {m : Memory}
    (hne : ∀ i < n, m.cell (s + .ofNat i) ≠ 0) (hend : m.cell (s + .ofNat n) = 0) {fuel : Nat}
    {r : Nat × Memory} (h : loop (strlenRound s) fuel (0, m) = some r) :
    r.1 = n ∧ r.2.cell = m.cell ∧
      ∀ a, a ∈ r.2.touched ↔ a ∈ m.touched ∨ ∃ i ≤ n, a = s + .ofNat i := by
  let P : Nat × Memory → Prop := fun c => c.1 ≤ n ∧ c.2.cell = m.cell ∧
    ∀ a, a ∈ c.2.touched ↔ a ∈ m.touched ∨ ∃ i < c.1, a = s + .ofNat i
  have hstart : P (0, m) := by
    refine ⟨Nat.zero_le n, rfl, ?_⟩
    simp
  have htouch : ∀ j m', P (j, m') → ∀ a, a ∈ (m'.read (s + .ofNat j)).touched ↔
      a ∈ m.touched ∨ ∃ i < j + 1, a = s + .ofNat i := by
    rintro j m' ⟨-, -, htouched⟩ a
    rw [mem_touched_read, htouched a, or_assoc]
    apply or_congr_right
    simp only [Nat.lt_succ_iff_lt_or_eq, or_and_right, exists_or, exists_eq_left]
  apply loop_invariant (P := P) _ _ hstart h
  · rintro ⟨j, m'⟩ d hP hround
    obtain ⟨hle, hcell, htouched⟩ := id hP
    rcases Classical.em (m'.cell (s + .ofNat j) = 0) with hzero | hzero
    · rw [strlenRound_end hzero] at hround
      cases hround
    · rw [strlenRound_next hzero] at hround
      cases hround
      refine ⟨?_, hcell, htouch j m' hP⟩
      apply Nat.lt_of_le_of_ne hle
      rintro rfl
      rw [hcell] at hzero
      exact hzero hend
  · rintro ⟨j, m'⟩ r' hP hround
    obtain ⟨hle, hcell, htouched⟩ := id hP
    rcases Classical.em (m'.cell (s + .ofNat j) = 0) with hzero | hzero
    · rw [strlenRound_end hzero] at hround
      cases hround
      have hj : j = n := by
        apply Nat.le_antisymm hle
        rw [← Nat.not_lt]
        intro hlt
        rw [hcell] at hzero
        exact hne j hlt hzero
      refine ⟨hj, hcell, ?_⟩
      intro a
      rw [htouch j m' hP a, hj]
      simp only [Nat.lt_succ_iff]
    · rw [strlenRound_next hzero] at hround
      cases hround

theorem skipLoop_spec (len i : Nat) (m : Memory) :
    ∃ k, i ≤ k ∧ k ≤ i + len ∧ (skipLoop len (.ofNat i) (.ofNat i) m).1 = .ofNat k ∧
      (skipLoop len (.ofNat i) (.ofNat i) m).2.cell = m.cell ∧
      (∀ j, i ≤ j → j < k → isspace (m.cell (.ofNat (2 * j))) = true) ∧
      (k < i + len → isspace (m.cell (.ofNat (2 * k))) = false) ∧
      ∀ a, a ∈ (skipLoop len (.ofNat i) (.ofNat i) m).2.touched ↔
        a ∈ m.touched ∨ ∃ j, i ≤ j ∧ j ≤ k ∧ j < i + len ∧ a = .ofNat (2 * j) := by
  induction len generalizing i m with
  | zero =>
      refine ⟨i, le_rfl, le_rfl, rfl, rfl, ?_, ?_, ?_⟩
      · intro j hle hlt
        omega
      · intro hlt
        omega
      · intro a
        constructor
        · exact Or.inl
        · rintro (hold | ⟨j, hle, -, hlt, -⟩)
          · exact hold
          · omega
  | succ len ih =>
      have hplace : UInt32.ofNat i + UInt32.ofNat i = UInt32.ofNat (2 * i) := by
        rw [← UInt32.ofNat_add, Nat.two_mul]
      have hnext : UInt32.ofNat i + 1 = UInt32.ofNat (i + 1) := by
        rw [UInt32.ofNat_add]
        rfl
      simp only [skipLoop, hplace, hnext]
      split
      · rename_i hblank
        obtain ⟨k, hle, hbound, hs, hcell, hblanks, hstop, htouched⟩ :=
          ih (i + 1) (m.read (.ofNat (2 * i)))
        refine ⟨k, by omega, by omega, hs, hcell, ?_, ?_, ?_⟩
        · intro j hj hlt
          rcases Nat.eq_or_lt_of_le hj with rfl | hless
          · exact hblank
          · exact hblanks j hless hlt
        · intro hlt
          exact hstop (by omega)
        · intro a
          rw [htouched a, mem_touched_read, or_assoc]
          apply or_congr_right
          constructor
          · rintro (rfl | ⟨j, hj, hjk, hlt, rfl⟩)
            · exact ⟨i, le_rfl, by omega, by omega, rfl⟩
            · exact ⟨j, by omega, hjk, by omega, rfl⟩
          · rintro ⟨j, hj, hjk, hlt, rfl⟩
            rcases Nat.eq_or_lt_of_le hj with rfl | hless
            · exact Or.inl rfl
            · exact Or.inr ⟨j, hless, hjk, by omega, rfl⟩
      · rename_i hblank
        refine ⟨i, le_rfl, by omega, rfl, rfl, ?_, ?_, ?_⟩
        · intro j hle hlt
          omega
        · intro _
          exact Bool.eq_false_iff.mpr hblank
        · intro a
          rw [mem_touched_read]
          apply or_congr_right
          constructor
          · rintro rfl
            exact ⟨i, le_rfl, le_rfl, by omega, rfl⟩
          · rintro ⟨j, hj, hjk, -, rfl⟩
            rw [Nat.le_antisymm hjk hj]

theorem clearRound_next {s i : UInt32} {m : Memory} (h : isspace (m.cell (s + i)) = true) :
    clearRound s (i, m) = .inl (i - 1, (m.read (s + i)).clear (s + i)) :=
  if_pos h

theorem clearRound_end {s i : UInt32} {m : Memory} (h : isspace (m.cell (s + i)) = false) :
    clearRound s (i, m) = .inr (m.read (s + i)) :=
  if_neg (Bool.eq_false_iff.mp h)

theorem before_add {s i z : UInt32} {n : Nat} (h : s + i = z + .ofNat (n + 1)) :
    s + (i - 1) = z + .ofNat n := by
  have hone : UInt32.ofNat (n + 1) = UInt32.ofNat n + 1 := UInt32.ofNat_add n 1
  rw [hone, ← UInt32.add_assoc] at h
  rw [UInt32.sub_eq_add_neg, ← UInt32.add_assoc, h, ← UInt32.sub_eq_add_neg,
    UInt32.add_sub_cancel]

theorem before_eq {s i : UInt32} {n : Nat} (h : s + i = .ofNat (n + 1)) :
    s + (i - 1) = .ofNat n := by
  rw [← UInt32.zero_add (.ofNat (n + 1))] at h
  rw [before_add h, UInt32.zero_add]

theorem eq_ofNat_iff {a : UInt32} {n : Nat} (hn : n < 2 ^ 32) : a = .ofNat n ↔ a.toNat = n := by
  rw [← UInt32.toNat_inj, UInt32.toNat_ofNat_of_lt' hn]

theorem clear_cell (m : Memory) (a b : UInt32) :
    ((m.read a).clear a).cell b = if b = a then 0 else m.cell b :=
  Function.update_apply m.cell a 0 b

theorem clear_cell_ofNat {n : Nat} (hn : n < 2 ^ 32) (m : Memory) (b : UInt32) :
    ((m.read (.ofNat n)).clear (.ofNat n)).cell b = if b.toNat = n then 0 else m.cell b :=
  (clear_cell m (.ofNat n) b).trans (if_congr (eq_ofNat_iff hn) rfl rfl)

theorem mem_touched_read_clear (m : Memory) (a b : UInt32) :
    b ∈ ((m.read a).clear a).touched ↔ b ∈ m.touched ∨ b = a := by
  rw [mem_touched_clear, mem_touched_read, or_assoc, or_self]

theorem clear_ends {z : UInt32} {m : Memory} (hz : m.cell z = 0) (s i : UInt32) :
    Ends (clearRound s) (i, m) := by
  have hfrom : ∀ n i m', m'.cell z = 0 → s + i = z + .ofNat n → Ends (clearRound s) (i, m') := by
    intro n
    induction n with
    | zero =>
        intro i m' hcell hplace
        have hstop : isspace (m'.cell (s + i)) = false := by
          have hzero : z + UInt32.ofNat 0 = z := UInt32.add_zero z
          rw [hplace, hzero, hcell]
          rfl
        exact ends_of_result (clearRound_end hstop)
    | succ n ih =>
        intro i m' hcell hplace
        cases hblank : isspace (m'.cell (s + i)) with
        | false => exact ends_of_result (clearRound_end hblank)
        | true =>
            rw [ends_iff_next (clearRound_next hblank)]
            apply ih _ _ _ (before_add hplace)
            rw [clear_cell, hcell, ite_self]
  apply hfrom (s + i - z).toNat i m hz
  rw [UInt32.ofNat_toNat, UInt32.add_comm z, UInt32.sub_add_cancel]

theorem clear_invariant {s i : UInt32} {m m' : Memory} {fuel : Nat} {P : UInt32 → Memory → Prop}
    {Q : Memory → Prop}
    (hnext : ∀ i m, P i m → isspace (m.cell (s + i)) = true →
      P (i - 1) ((m.read (s + i)).clear (s + i)))
    (hend : ∀ i m, P i m → isspace (m.cell (s + i)) = false → Q (m.read (s + i)))
    (hstart : P i m) (h : loop (clearRound s) fuel (i, m) = some m') : Q m' := by
  apply loop_invariant (P := fun c => P c.1 c.2) _ _ hstart h
  · rintro ⟨i, m⟩ d hP hround
    cases hspace : isspace (m.cell (s + i)) with
    | false =>
        rw [clearRound_end hspace] at hround
        cases hround
    | true =>
        rw [clearRound_next hspace] at hround
        cases hround
        exact hnext i m hP hspace
  · rintro ⟨i, m⟩ r hP hround
    cases hspace : isspace (m.cell (s + i)) with
    | true =>
        rw [clearRound_next hspace] at hround
        cases hround
    | false =>
        rw [clearRound_end hspace] at hround
        cases hround
        exact hend i m hP hspace

theorem clear_touched {s i a : UInt32} {m m' : Memory} {fuel : Nat}
    (h : loop (clearRound s) fuel (i, m) = some m') (ha : a ∈ m.touched) : a ∈ m'.touched := by
  apply clear_invariant (P := fun _ m => a ∈ m.touched) _ _ ha h
  · intro i m hin _
    exact (mem_touched_read_clear _ _ _).mpr (Or.inl hin)
  · intro i m hin _
    exact (mem_touched_read _ _ _).mpr (Or.inl hin)

section

variable {s i : UInt32} {e : Nat} {m m' : Memory} {fuel : Nat}
  (hplace : s + i = .ofNat e) (h : loop (clearRound s) fuel (i, m) = some m')

include hplace h

theorem clear_result {stop : Nat} (he : e < 2 ^ 32) (hle : stop ≤ e)
    (hstop : isspace (m.cell (.ofNat stop)) = false)
    (hblank : ∀ j, stop < j → j ≤ e → isspace (m.cell (.ofNat j)) = true) :
    (∀ a, m'.cell a = if stop < a.toNat ∧ a.toNat ≤ e then 0 else m.cell a) ∧
      ∀ a, a ∈ m'.touched ↔ a ∈ m.touched ∨ stop ≤ a.toNat ∧ a.toNat ≤ e := by
  let P : UInt32 → Memory → Prop := fun i₁ m₁ => ∃ j, stop ≤ j ∧ j ≤ e ∧ s + i₁ = .ofNat j ∧
    (∀ a, m₁.cell a = if j < a.toNat ∧ a.toNat ≤ e then 0 else m.cell a) ∧
    ∀ a, a ∈ m₁.touched ↔ a ∈ m.touched ∨ j < a.toNat ∧ a.toNat ≤ e
  have hstart : P i m := by
    refine ⟨e, hle, le_rfl, hplace, ?_, ?_⟩
    · intro a
      rw [if_neg (by omega)]
    · intro a
      rw [or_iff_left (by omega)]
  have hcell : ∀ j, j ≤ e → ∀ m₁ : Memory,
      (∀ a, m₁.cell a = if j < a.toNat ∧ a.toNat ≤ e then 0 else m.cell a) →
      m₁.cell (.ofNat j) = m.cell (.ofNat j) := by
    intro j hj m₁ hcells
    rw [hcells, UInt32.toNat_ofNat_of_lt' (Nat.lt_of_le_of_lt hj he), if_neg (by omega)]
  apply clear_invariant _ _ hstart h
  · rintro i₁ m₁ ⟨j, hj, hje, hij, hcells, htouched⟩ hspace
    have hjlt : j < 2 ^ 32 := Nat.lt_of_le_of_lt hje he
    have hpast : j ≠ stop := by
      rintro rfl
      rw [hij, hcell j hje m₁ hcells, hstop] at hspace
      cases hspace
    obtain ⟨j, rfl⟩ : ∃ n, j = n + 1 := ⟨j - 1, by omega⟩
    refine ⟨j, by omega, by omega, before_eq hij, ?_, ?_⟩
    · intro a
      rw [hij, clear_cell_ofNat hjlt, hcells a, ← ite_or]
      exact if_congr (by omega) rfl rfl
    · intro a
      rw [mem_touched_read_clear, htouched a, hij, eq_ofNat_iff hjlt, or_assoc]
      apply or_congr_right
      omega
  · rintro i₁ m₁ ⟨j, hj, hje, hij, hcells, htouched⟩ hspace
    have hjlt : j < 2 ^ 32 := Nat.lt_of_le_of_lt hje he
    have hlast : j = stop := by
      rw [hij, hcell j hje m₁ hcells] at hspace
      rcases Nat.eq_or_lt_of_le hj with heq | hlt
      · exact heq.symm
      · rw [hblank j hlt hje] at hspace
        cases hspace
    subst hlast
    refine ⟨hcells, ?_⟩
    intro a
    rw [mem_touched_read, htouched a, hij, eq_ofNat_iff hjlt, or_assoc]
    apply or_congr_right
    omega

theorem clear_before (he : e + 1 < 2 ^ 32)
    (hblank : ∀ j, j ≤ e → isspace (m.cell (.ofNat j)) = true) :
    .ofNat (2 ^ 32 - 1) ∈ m'.touched := by
  let P : UInt32 → Memory → Prop := fun i₁ m₁ =>
    (∃ j, j ≤ e ∧ s + i₁ = .ofNat j ∧ ∀ a, a.toNat ≤ j → m₁.cell a = m.cell a) ∨
      s + i₁ = .ofNat (2 ^ 32 - 1) ∨ .ofNat (2 ^ 32 - 1) ∈ m₁.touched
  have hstart : P i m := Or.inl ⟨e, le_rfl, hplace, fun _ _ => rfl⟩
  apply clear_invariant _ _ hstart h
  · rintro i₁ m₁ (⟨j, hj, hij, hcells⟩ | hP) hspace
    · cases j with
      | zero =>
          refine Or.inr (Or.inl ?_)
          have hlast : UInt32.ofNat (2 ^ 32 - 1) = UInt32.ofNat 0 - 1 := by decide
          rw [hlast, ← hij, UInt32.sub_eq_add_neg, UInt32.sub_eq_add_neg, UInt32.add_assoc]
      | succ j =>
          refine Or.inl ⟨j, by omega, before_eq hij, ?_⟩
          intro a ha
          rw [hij, clear_cell_ofNat (by omega), if_neg (by omega)]
          exact hcells a (by omega)
    · refine Or.inr (Or.inr ?_)
      rw [mem_touched_read_clear]
      exact hP.symm.imp_right Eq.symm
  · rintro i₁ m₁ (⟨j, hj, hij, hcells⟩ | hP) hspace
    · have hjlt : j < 2 ^ 32 := by omega
      rw [hij, hcells _ (Nat.le_of_eq (UInt32.toNat_ofNat_of_lt' hjlt)), hblank j hj] at hspace
      cases hspace
    · rw [mem_touched_read]
      exact hP.symm.imp_right Eq.symm

theorem clear_reaches {k : Nat} (he : e < 2 ^ 32) (hk : k ≤ e)
    (hblank : ∀ j, k ≤ j → j ≤ e → isspace (m.cell (.ofNat j)) = true) :
    m'.cell (.ofNat k) = 0 := by
  let P : UInt32 → Memory → Prop := fun i₁ m₁ =>
    (∃ j, k ≤ j ∧ j ≤ e ∧ s + i₁ = .ofNat j ∧ ∀ a, a.toNat ≤ j → m₁.cell a = m.cell a) ∨
      m₁.cell (.ofNat k) = 0
  have hstart : P i m := Or.inl ⟨e, hk, le_rfl, hplace, fun _ _ => rfl⟩
  apply clear_invariant (Q := fun m' => m'.cell (.ofNat k) = 0) _ _ hstart h
  · rintro i₁ m₁ (⟨j, hkj, hj, hij, hcells⟩ | hzero) hspace
    · rcases Nat.eq_or_lt_of_le hkj with rfl | hlt
      · refine Or.inr ?_
        rw [hij, clear_cell, if_pos rfl]
      · obtain ⟨j, rfl⟩ : ∃ n, j = n + 1 := ⟨j - 1, by omega⟩
        refine Or.inl ⟨j, by omega, by omega, before_eq hij, ?_⟩
        intro a ha
        rw [hij, clear_cell_ofNat (by omega), if_neg (by omega)]
        exact hcells a (by omega)
    · refine Or.inr ?_
      rw [clear_cell, hzero, ite_self]
  · rintro i₁ m₁ (⟨j, hkj, hj, hij, hcells⟩ | hzero) hspace
    · have hjlt : j < 2 ^ 32 := Nat.lt_of_le_of_lt hj he
      rw [hij, hcells _ (Nat.le_of_eq (UInt32.toNat_ofNat_of_lt' hjlt)), hblank j hkj hj] at hspace
      cases hspace
    · exact hzero

end

/-- A string and its terminator from the address `s` on. -/
def StoredAt (cell : UInt32 → UInt8) (s : UInt32) (string : Bytes) : Prop :=
  ∀ i ≤ string.length, cell (s + .ofNat i) = string.getD i 0

/-- A string in memory. The null address is no part of it. -/
structure Stored where
  string : Bytes
  cell : UInt32 → UInt8
  nonzero : 0 ∉ string
  length_lt : string.length + 1 < 2 ^ 32
  stored : StoredAt cell 0 string

def trimmed (string : Bytes) : Bytes :=
  (string.dropWhile isspace).rdropWhile isspace

/-- What is expected of a call: it ends, the string it returns lies in the one it was
given and is that without the white space at both ends, and nothing else is touched. -/
def Trims (t : Stored) : Prop :=
  ∃ fuel s m, lftpdStringTrim fuel 0 ⟨t.cell, []⟩ = some (s, m) ∧
    s.toNat ≤ t.string.length ∧ StoredAt m.cell s (trimmed t.string) ∧
    ∀ a ∈ m.touched, a.toNat ≤ t.string.length

/-- How much white space a string starts with. -/
def blanks (string : Bytes) : Nat :=
  (string.takeWhile isspace).length

/-- The strings that are trimmed as expected: the first loop looks at every second
byte, and has to find white space as often as there is some at the beginning. -/
def Regular (string : Bytes) : Prop :=
  if string.all isspace then string.length ≤ 1
  else (∀ i < blanks string, isspace (string.getD (2 * i) 0) = true) ∧
    2 * blanks string ≤ string.length ∧ isspace (string.getD (2 * blanks string) 0) = false

theorem cell_eq (t : Stored) {i : Nat} (hi : i ≤ t.string.length) :
    t.cell (.ofNat i) = t.string.getD i 0 := by
  rw [← t.stored i hi, UInt32.zero_add]

theorem storedAt_nil {cell : UInt32 → UInt8} {s : UInt32} (h : cell s = 0) :
    StoredAt cell s [] := by
  intro i hi
  rw [List.length_nil, Nat.le_zero] at hi
  have hzero : s + UInt32.ofNat 0 = s := UInt32.add_zero s
  rw [hi, hzero, h]
  rfl

theorem getD_ne_zero {string : Bytes} (hzero : 0 ∉ string) {i : Nat} (hi : i < string.length) :
    string.getD i 0 ≠ 0 := by
  rw [List.getD_eq_getElem _ _ hi]
  exact ne_of_mem_of_not_mem (List.getElem_mem hi) hzero

theorem getD_length (string : Bytes) : string.getD string.length 0 = 0 :=
  List.getD_eq_default _ _ le_rfl

theorem strlen_tail (t : Stored) {k : Nat} (hk : k ≤ t.string.length) {m : Memory}
    (hcell : m.cell = t.cell) :
    (∀ i < t.string.length - k, m.cell (.ofNat k + .ofNat i) ≠ 0) ∧
      m.cell (.ofNat k + .ofNat (t.string.length - k)) = 0 := by
  constructor
  · intro i hi
    rw [hcell, ← UInt32.ofNat_add, cell_eq t (by omega)]
    exact getD_ne_zero t.nonzero (by omega)
  · rw [hcell, ← UInt32.ofNat_add, cell_eq t (by omega), Nat.add_sub_cancel' hk]
    exact getD_length _

theorem trim_parts (t : Stored) {fuel : Nat} {s : UInt32} {m : Memory}
    (h : lftpdStringTrim fuel 0 ⟨t.cell, []⟩ = some (s, m)) :
    ∃ k m₁, k ≤ t.string.length ∧ s = .ofNat k ∧ m₁.cell = t.cell ∧
      (∀ j < k, isspace (t.cell (.ofNat (2 * j))) = true) ∧
      (k < t.string.length → isspace (t.cell (.ofNat (2 * k))) = false) ∧
      (∀ a, a ∈ m₁.touched ↔ a.toNat ≤ t.string.length ∨
        ∃ j ≤ k, j < t.string.length ∧ a = .ofNat (2 * j)) ∧
      (k = t.string.length ∧ m = m₁ ∨ k < t.string.length ∧
        loop (clearRound (.ofNat k)) fuel (.ofNat (t.string.length - k - 1), m₁) = some m) := by
  have hlength := t.length_lt
  simp only [lftpdStringTrim, Option.bind_eq_bind, Option.bind_eq_some_iff] at h
  obtain ⟨⟨len, m₀⟩, hlen, ⟨len', m₁⟩, hlen', hrest⟩ := h
  obtain ⟨hne, hend⟩ := @strlen_tail t 0 (Nat.zero_le _) ⟨t.cell, []⟩ rfl
  obtain ⟨hlenEq, hcell₀, htouched₀⟩ := strlen_result hne hend hlen
  simp only [Nat.sub_zero] at hlenEq hcell₀ htouched₀
  subst hlenEq
  obtain ⟨k, -, hk, hs, hcell, hblanks, hstop, htouched⟩ := skipLoop_spec t.string.length 0 m₀
  rw [Nat.zero_add] at hk hstop htouched
  have hzero : UInt32.ofNat 0 = 0 := rfl
  rw [hzero] at hs hcell htouched
  rw [hs] at hlen' hrest
  obtain ⟨hne', hend'⟩ := strlen_tail t hk (hcell.trans hcell₀)
  obtain ⟨hlenEq', hcell₁, htouched₁⟩ := strlen_result hne' hend' hlen'
  simp only at hlenEq' hcell₁ htouched₁ hrest
  subst hlenEq'
  rw [hcell₀] at hblanks hstop
  refine ⟨k, m₁, hk, ?_, (hcell₁.trans hcell).trans hcell₀, fun j hj => hblanks j (Nat.zero_le j) hj,
    hstop, ?_, ?_⟩
  · split at hrest
    · cases hrest
      rfl
    · obtain ⟨m₂, -, hpair⟩ := Option.bind_eq_some_iff.mp hrest
      cases hpair
      rfl
  · intro a
    rw [htouched₁, htouched, htouched₀]
    constructor
    · rintro (((hnone | ⟨i, hi, rfl⟩) | ⟨j, -, hj, hlt, rfl⟩) | ⟨i, hi, rfl⟩)
      · cases hnone
      · rw [← UInt32.ofNat_add, UInt32.toNat_ofNat_of_lt' (by change _ < 2 ^ 32; omega)]
        exact Or.inl (by omega)
      · exact Or.inr ⟨j, hj, hlt, rfl⟩
      · rw [← UInt32.ofNat_add, UInt32.toNat_ofNat_of_lt' (by change _ < 2 ^ 32; omega)]
        exact Or.inl (by omega)
    · rintro (hle | ⟨j, hj, hlt, rfl⟩)
      · refine Or.inl (Or.inl (Or.inr ⟨a.toNat, hle, ?_⟩))
        rw [UInt32.ofNat_toNat]
        exact (UInt32.zero_add a).symm
      · exact Or.inl (Or.inr ⟨j, Nat.zero_le j, hj, hlt, rfl⟩)
  · split at hrest
    · cases hrest
      exact Or.inl ⟨by omega, rfl⟩
    · obtain ⟨m₂, hclear, hpair⟩ := Option.bind_eq_some_iff.mp hrest
      cases hpair
      exact Or.inr ⟨by omega, hclear⟩

theorem clear_place {k len : Nat} (hlt : k < len) :
    UInt32.ofNat k + UInt32.ofNat (len - k - 1) = UInt32.ofNat (len - 1) := by
  rw [← UInt32.ofNat_add]
  congr 1
  omega

theorem trim_ends (t : Stored) : ∃ fuel s m, lftpdStringTrim fuel 0 ⟨t.cell, []⟩ = some (s, m) := by
  obtain ⟨hne, hend⟩ := @strlen_tail t 0 (Nat.zero_le _) ⟨t.cell, []⟩ rfl
  obtain ⟨fuel₀, ⟨len, m₀⟩, hlen⟩ := strlen_ends hend
  obtain ⟨hlenEq, hcell₀, -⟩ := strlen_result hne hend hlen
  simp only [Nat.sub_zero] at hlenEq hcell₀
  subst hlenEq
  obtain ⟨k, -, hk, hs, hcell, -⟩ := skipLoop_spec t.string.length 0 m₀
  rw [Nat.zero_add] at hk
  have hzero : UInt32.ofNat 0 = 0 := rfl
  rw [hzero] at hs hcell
  obtain ⟨hne', hend'⟩ := strlen_tail t hk (hcell.trans hcell₀)
  obtain ⟨fuel₁, ⟨len', m₁⟩, hlen'⟩ := strlen_ends hend'
  obtain ⟨-, hcell₁, -⟩ := strlen_result hne' hend' hlen'
  have hterminator : m₁.cell (.ofNat t.string.length) = 0 := by
    rw [hcell₁, hcell, hcell₀, cell_eq t le_rfl]
    exact getD_length _
  obtain ⟨fuel₂, m₂, hclear⟩ := clear_ends hterminator (.ofNat k) (.ofNat (len' - 1))
  let fuel := max fuel₀ (max fuel₁ fuel₂)
  have hlen := loop_le (show fuel₀ ≤ fuel by omega) hlen
  have hlen' := loop_le (show fuel₁ ≤ fuel by omega) hlen'
  have hclear := loop_le (show fuel₂ ≤ fuel by omega) hclear
  rcases Classical.em (len' = 0) with hempty | hempty
  · refine ⟨fuel, .ofNat k, m₁, ?_⟩
    simp only [lftpdStringTrim, hzero] at hlen ⊢
    simp only [hlen, Option.bind_eq_bind, Option.bind_some, hs, hlen', if_pos hempty]
  · refine ⟨fuel, .ofNat k, m₂, ?_⟩
    simp only [lftpdStringTrim, hzero] at hlen ⊢
    simp only [hlen, Option.bind_eq_bind, Option.bind_some, hs, hlen', if_neg hempty, hclear]

theorem isspace_getD_of_forall {bytes : Bytes} (h : ∀ b ∈ bytes, isspace b = true) {i : Nat}
    (hi : i < bytes.length) : isspace (bytes.getD i 0) = true := by
  rw [List.getD_eq_getElem _ _ hi]
  exact h _ (List.getElem_mem hi)

/-- A string that is not all white space: where its first and its last other
character stand. -/
structure Core (string : Bytes) (last : Nat) : Prop where
  blanks_le : blanks string ≤ last
  last_lt : last < string.length
  isspace_first : isspace (string.getD (blanks string) 0) = false
  isspace_last : isspace (string.getD last 0) = false
  isspace_before : ∀ i < blanks string, isspace (string.getD i 0) = true
  isspace_behind : ∀ i, last < i → i < string.length → isspace (string.getD i 0) = true
  trimmed_length : (trimmed string).length = last + 1 - blanks string
  trimmed_getD : ∀ i < last + 1 - blanks string,
    (trimmed string).getD i 0 = string.getD (blanks string + i) 0

theorem exists_core {string : Bytes} (h : string.all isspace = false) :
    ∃ last, Core string last := by
  obtain ⟨lead, hlead⟩ : ∃ lead, string.takeWhile isspace = lead := ⟨_, rfl⟩
  obtain ⟨rest, hrest⟩ : ∃ rest, string.dropWhile isspace = rest := ⟨_, rfl⟩
  obtain ⟨core, hcore⟩ : ∃ core, rest.rdropWhile isspace = core := ⟨_, rfl⟩
  obtain ⟨trail, htrail⟩ : ∃ trail, rest.rtakeWhile isspace = trail := ⟨_, rfl⟩
  have hrestSplit : rest = core ++ trail := by
    rw [← hcore, ← htrail, List.rdropWhile_append_rtakeWhile]
  have hsplit : string = lead ++ (core ++ trail) := by
    rw [← hrestSplit, ← hrest, ← hlead, List.takeWhile_append_dropWhile]
  have hleadBlank : ∀ b ∈ lead, isspace b = true := by
    intro b hb
    rw [← hlead] at hb
    exact List.mem_takeWhile_imp hb
  have htrailBlank : ∀ b ∈ trail, isspace b = true := by
    intro b hb
    rw [← htrail] at hb
    exact List.mem_rtakeWhile_imp hb
  have hne : core ≠ [] := by
    rintro rfl
    rw [List.nil_append] at hsplit
    rw [hsplit, List.all_append, Bool.and_eq_false_iff] at h
    rcases h with h | h
    · rw [List.all_eq_true.mpr hleadBlank] at h
      cases h
    · rw [List.all_eq_true.mpr htrailBlank] at h
      cases h
  have hpos := List.length_pos_of_ne_nil hne
  have hblanks : blanks string = lead.length := congrArg List.length hlead
  have htrimmed : trimmed string = core := by
    rw [trimmed, hrest, hcore]
  have hlen : string.length = lead.length + (core.length + trail.length) := by
    rw [hsplit, List.length_append, List.length_append]
  have hcoreGetD : ∀ i < core.length, string.getD (lead.length + i) 0 = core.getD i 0 := by
    intro i hi
    rw [hsplit, List.getD_append_right _ _ _ _ (Nat.le_add_right _ _), Nat.add_sub_cancel_left,
      List.getD_append _ _ _ _ hi]
  refine ⟨lead.length + core.length - 1, ?_⟩
  constructor
  · omega
  · omega
  · have hfirst := List.head?_dropWhile_not isspace string
    have hget := hcoreGetD 0 hpos
    rw [Nat.add_zero] at hget
    rw [hblanks, hget]
    obtain ⟨c, cs, rfl⟩ := List.exists_cons_of_ne_nil hne
    rw [hrest, hrestSplit] at hfirst
    exact hfirst
  · have hlast : lead.length + core.length - 1 = lead.length + (core.length - 1) := by omega
    have hcoreLast : ¬ isspace (core.getLast hne) = true := by
      subst hcore
      exact List.rdropWhile_last_not isspace rest hne
    rw [hlast, hcoreGetD _ (by omega), List.getD_eq_getElem _ _ (by omega),
      ← List.getLast_eq_getElem hne]
    exact Bool.eq_false_iff.mpr hcoreLast
  · intro i hi
    rw [hblanks] at hi
    rw [hsplit, List.getD_append _ _ _ _ hi]
    exact isspace_getD_of_forall hleadBlank hi
  · intro i hlt hi
    rw [hsplit, ← List.append_assoc,
      List.getD_append_right _ _ _ _ (by rw [List.length_append]; omega)]
    apply isspace_getD_of_forall htrailBlank
    rw [List.length_append]
    omega
  · rw [htrimmed, hblanks]
    omega
  · intro i hi
    rw [htrimmed, hblanks, hcoreGetD i (by omega)]

theorem trimmed_all {string : Bytes} (h : string.all isspace = true) : trimmed string = [] := by
  have hdrop : string.dropWhile isspace = [] := by
    rw [List.dropWhile_eq_nil_iff]
    exact List.all_eq_true.mp h
  rw [trimmed, hdrop, List.rdropWhile_nil]

theorem cell_blank {t : Stored} (hall : t.string.all isspace = true) {i : Nat}
    (hi : i < t.string.length) : isspace (t.cell (.ofNat i)) = true := by
  rw [cell_eq t (Nat.le_of_lt hi)]
  exact isspace_getD_of_forall (List.all_eq_true.mp hall) hi

theorem toNat_ofNat {t : Stored} {i : Nat} (hi : i ≤ t.string.length + 1) :
    (UInt32.ofNat i).toNat = i :=
  UInt32.toNat_ofNat_of_lt' (Nat.lt_of_le_of_lt hi t.length_lt)

theorem cell_length (t : Stored) : t.cell (.ofNat t.string.length) = 0 := by
  rw [cell_eq t le_rfl, getD_length]

theorem length_le_one_of_trims {t : Stored} (hall : t.string.all isspace = true) (h : Trims t) :
    t.string.length ≤ 1 := by
  obtain ⟨fuel, s, m, hrun, -, -, hinside⟩ := h
  obtain ⟨k, m₁, hk, rfl, hcell, hskipped, hstop, htouched, hend⟩ := trim_parts t hrun
  have hlength := t.length_lt
  rw [← Nat.not_lt]
  intro hlong
  have hblank : ∀ i, i < t.string.length → isspace (t.cell (.ofNat i)) = true :=
    fun i hi => cell_blank hall hi
  have hkeep : ∀ a ∈ m₁.touched, a ∈ m.touched := by
    rcases hend with ⟨-, rfl⟩ | ⟨-, hclear⟩
    · exact fun _ ha => ha
    · exact fun _ ha => clear_touched hclear ha
  have hreach : ∀ half, 2 * half < t.string.length → half < k := by
    intro half hhalf
    rw [← Nat.not_le]
    intro hle
    have hspace := hblank (2 * k) (by omega)
    rw [hstop (by omega)] at hspace
    cases hspace
  obtain ⟨half, heven | hodd⟩ :
      ∃ half, t.string.length = 2 * half ∨ t.string.length = 2 * half + 1 :=
    ⟨t.string.length / 2, by omega⟩
  · -- The first loop stops at the terminator, the second one before the beginning.
    have hhalf : k = half := by
      have hlow := hreach (half - 1) (by omega)
      have hhigh : k ≤ half := by
        rw [← Nat.not_lt]
        intro hlt
        have hspace := hskipped half hlt
        rw [← heven, cell_length] at hspace
        cases hspace
      omega
    rcases hend with ⟨hlast, -⟩ | ⟨hlt, hclear⟩
    · omega
    · have hbefore := clear_before (clear_place hlt) hclear (by omega)
        (fun j hj => by rw [hcell]; exact hblank j (by omega))
      have hle := hinside _ hbefore
      have hmax : (UInt32.ofNat (2 ^ 32 - 1)).toNat = 2 ^ 32 - 1 := by decide
      omega
  · -- The byte behind the terminator is read.
    have hread : .ofNat (2 * (half + 1)) ∈ m₁.touched := by
      rw [htouched]
      exact Or.inr ⟨half + 1, hreach half (by omega), by omega, rfl⟩
    have hle := hinside _ (hkeep _ hread)
    rw [UInt32.toNat_ofNat_of_lt' (by change _ < 2 ^ 32; omega)] at hle
    omega

theorem trims_of_length_le_one {t : Stored} (hall : t.string.all isspace = true)
    (h : t.string.length ≤ 1) : Trims t := by
  obtain ⟨fuel, s, m, hrun⟩ := trim_ends t
  obtain ⟨k, m₁, hk, hs, hcell, hskipped, hstop, htouched, hend⟩ := trim_parts t hrun
  have hlast : k = t.string.length := by
    apply Nat.le_antisymm hk
    rw [← Nat.not_lt]
    intro hlt
    have hspace := @cell_blank t hall (2 * k) (by omega)
    rw [hstop hlt] at hspace
    cases hspace
  rcases hend with ⟨-, rfl⟩ | ⟨hlt, -⟩
  · refine ⟨fuel, s, m, hrun, ?_, ?_, ?_⟩
    · rw [hs, @toNat_ofNat t k (by omega)]
      exact hk
    · rw [trimmed_all hall, hs, hcell]
      apply storedAt_nil
      rw [hlast, cell_length]
    · intro a ha
      rcases (htouched a).mp ha with hle | ⟨j, -, hj, rfl⟩
      · exact hle
      · rw [@toNat_ofNat t (2 * j) (by omega)]
        omega
  · omega

section

variable {t : Stored} {last : Nat} (hcore : Core t.string last)

include hcore

theorem mixed_result {fuel : Nat} {s : UInt32} {m : Memory}
    (hrun : lftpdStringTrim fuel 0 ⟨t.cell, []⟩ = some (s, m)) :
    ∃ k ≤ t.string.length, s = .ofNat k ∧
      (∀ j < k, isspace (t.cell (.ofNat (2 * j))) = true) ∧
      (k < t.string.length → isspace (t.cell (.ofNat (2 * k))) = false) ∧
      (∀ a, m.cell a = if k < t.string.length ∧ last < a.toNat ∧ a.toNat < t.string.length then 0
        else t.cell a) ∧
      ∀ a, a ∈ m.touched ↔ a.toNat ≤ t.string.length ∨
        ∃ j ≤ k, j < t.string.length ∧ a = .ofNat (2 * j) := by
  obtain ⟨k, m₁, hk, hs, hcell, hskipped, hstop, htouched, hend⟩ := trim_parts t hrun
  have hlast := hcore.last_lt
  have hlength := t.length_lt
  refine ⟨k, hk, hs, hskipped, hstop, ?_⟩
  rcases hend with ⟨heq, rfl⟩ | ⟨hlt, hclear⟩
  · refine ⟨?_, htouched⟩
    intro a
    rw [if_neg (by omega), hcell]
  · obtain ⟨hcells, htouched'⟩ :=
      clear_result (clear_place hlt) hclear (by omega) (by omega : last ≤ _)
      (by rw [hcell, cell_eq t (by omega)]; exact hcore.isspace_last)
      (fun j hj hje => by
        rw [hcell, cell_eq t (by omega)]
        exact hcore.isspace_behind j hj (by omega))
    constructor
    · intro a
      rw [hcells a, hcell]
      apply if_congr _ rfl rfl
      omega
    · intro a
      rw [htouched', htouched, or_right_comm]
      apply or_congr_left
      omega

theorem trims_of_regular
    (hregular : (∀ i < blanks t.string, isspace (t.string.getD (2 * i) 0) = true) ∧
    2 * blanks t.string ≤ t.string.length ∧
    isspace (t.string.getD (2 * blanks t.string) 0) = false) : Trims t := by
  obtain ⟨hspaces, htwice, hother⟩ := hregular
  obtain ⟨fuel, s, m, hrun⟩ := trim_ends t
  obtain ⟨k, hk, hs, hskipped, hstop, hcells, htouched⟩ := mixed_result hcore hrun
  have hle := hcore.blanks_le
  have hlast := hcore.last_lt
  have hblanks : k = blanks t.string := by
    apply Nat.le_antisymm
    · rw [← Nat.not_lt]
      intro hlt
      have hspace := hskipped _ hlt
      rw [cell_eq t htwice, hother] at hspace
      cases hspace
    · rw [← Nat.not_lt]
      intro hlt
      have hspace := hspaces k hlt
      rw [← cell_eq t (by omega), hstop (by omega)] at hspace
      cases hspace
  refine ⟨fuel, s, m, hrun, ?_, ?_, ?_⟩
  · rw [hs, @toNat_ofNat t k (by omega)]
    exact hk
  · intro i hi
    rw [hcore.trimmed_length] at hi
    rw [hs, hblanks, ← UInt32.ofNat_add, hcells, @toNat_ofNat t _ (by omega)]
    rcases Nat.eq_or_lt_of_le hi with heq | hlt
    · have hnone : (trimmed t.string).getD i 0 = 0 := by
        apply List.getD_eq_default
        rw [hcore.trimmed_length]
        exact Nat.le_of_eq heq.symm
      rw [hnone]
      split
      · rfl
      · have hend : blanks t.string + i = t.string.length := by omega
        rw [hend, cell_length]
    · rw [if_neg (by omega), cell_eq t (by omega), hcore.trimmed_getD i hlt]
  · intro a ha
    rcases (htouched a).mp ha with hin | ⟨j, hj, -, rfl⟩
    · exact hin
    · rw [@toNat_ofNat t (2 * j) (by omega)]
      omega

theorem regular_of_trims (h : Trims t) :
    (∀ i < blanks t.string, isspace (t.string.getD (2 * i) 0) = true) ∧
      2 * blanks t.string ≤ t.string.length ∧
      isspace (t.string.getD (2 * blanks t.string) 0) = false := by
  obtain ⟨fuel, s, m, hrun, -, hstored, hinside⟩ := h
  obtain ⟨k, hk, hs, hskipped, hstop, hcells, htouched⟩ := mixed_result hcore hrun
  have hle := hcore.blanks_le
  have hlast := hcore.last_lt
  have hlength := t.length_lt
  have hplace : ∀ i, k + i ≤ t.string.length → i < last + 1 - blanks t.string →
      (if k < t.string.length ∧ last < k + i ∧ k + i < t.string.length then 0
        else t.cell (.ofNat (k + i))) = t.string.getD (blanks t.string + i) 0 := by
    intro i hki hi
    have hget := hstored i (by rw [hcore.trimmed_length]; omega)
    rwa [hs, ← UInt32.ofNat_add, hcells, @toNat_ofNat t _ (by omega), hcore.trimmed_getD i hi] at hget
  have hblanks : k = blanks t.string := by
    rcases Nat.lt_trichotomy k (blanks t.string) with hless | heq | hmore
    · -- White space is left at the beginning.
      have hfirst := hplace 0 (by omega) (by omega)
      rw [if_neg (by omega), cell_eq t (by omega)] at hfirst
      have hspace := hcore.isspace_before k hless
      rw [Nat.add_zero] at hfirst
      rw [hfirst, Nat.add_zero, hcore.isspace_first] at hspace
      cases hspace
    · exact heq
    · -- Too much is skipped: the string that is left ends too early.
      obtain ⟨i, hi, hki⟩ : ∃ i, i < last + 1 - blanks t.string ∧ k + i = max k (last + 1) :=
        ⟨max k (last + 1) - k, by omega, by omega⟩
      have hshort := hplace i (by omega) hi
      have hzero : (if k < t.string.length ∧ last < k + i ∧ k + i < t.string.length then 0
          else t.cell (.ofNat (k + i))) = 0 := by
        split
        · rfl
        · have hend : k + i = t.string.length := by omega
          rw [hend, cell_length]
      rw [hzero] at hshort
      exact absurd hshort.symm (getD_ne_zero t.nonzero (by omega))
  subst hblanks
  have hother := hstop (by omega)
  obtain ⟨j, hj⟩ : ∃ j, (UInt32.ofNat (2 * blanks t.string)).toNat = j := ⟨_, rfl⟩
  have hread := hinside (.ofNat (2 * blanks t.string))
    ((htouched _).mpr (Or.inr ⟨_, le_rfl, by omega, rfl⟩))
  have hplaceEq : UInt32.ofNat (2 * blanks t.string) = .ofNat j := by
    rw [← hj, UInt32.ofNat_toNat]
  rw [hj] at hread
  -- A string of more than half of the memory would be read from its beginning again.
  have hnotBefore : ¬ j < blanks t.string := by
    intro hlt
    have hspace := hcore.isspace_before j hlt
    rw [← cell_eq t hread, ← hplaceEq, hother] at hspace
    cases hspace
  have htwice : j = 2 * blanks t.string := by
    rw [UInt32.toNat_ofNat'] at hj
    omega
  subst htwice
  refine ⟨?_, hread, ?_⟩
  · intro i hi
    rw [← cell_eq t (by omega)]
    exact hskipped i hi
  · rw [← cell_eq t hread]
    exact hother

end

/-- The strings that are trimmed, and no others. -/
theorem trims_iff (t : Stored) : Trims t ↔ Regular t.string := by
  rw [Regular]
  cases hall : t.string.all isspace with
  | true =>
      rw [if_pos rfl]
      exact ⟨length_le_one_of_trims hall, trims_of_length_le_one hall⟩
  | false =>
      obtain ⟨last, hcore⟩ := exists_core hall
      rw [if_neg Bool.false_ne_true]
      exact ⟨regular_of_trims hcore, trims_of_regular hcore⟩

/-- A string at the beginning of a memory that is zero behind the bytes given. -/
def ofMemory (memory : Bytes) (hzero : 0 ∈ memory) (hlen : memory.length < 2 ^ 31) : Stored where
  string := FtpPath.cString memory
  cell a := memory.getD a.toNat 0
  nonzero := FtpPath.zero_notMem_cString memory
  length_lt := by
    have hless := FtpPath.cString_length_lt hzero
    omega
  stored := by
    intro i hi
    have hless := FtpPath.cString_length_lt hzero
    rw [UInt32.zero_add]
    simp only
    rw [UInt32.toNat_ofNat_of_lt' (by change _ < 2 ^ 32; omega), FtpPath.getD_cString hi]

def twoBlanks : Stored :=
  ofMemory [32, 32, 97, 0] (by decide) (by decide)

/-- The second blank is left. -/
theorem not_trims_twoBlanks : ¬ Trims twoBlanks := by
  intro h
  obtain ⟨last, hcore⟩ := @exists_core twoBlanks.string (by decide)
  exact absurd (regular_of_trims hcore h).2.1 (by decide)

theorem leadingSpaces_spec (memory : Bytes) (len i : Nat) :
    i ≤ FtpPath.leadingSpaces memory len i ∧ FtpPath.leadingSpaces memory len i ≤ i + len ∧
      (∀ j, i ≤ j → j < FtpPath.leadingSpaces memory len i →
        isspace (memory.getD (2 * j) 0) = true) ∧
      (FtpPath.leadingSpaces memory len i < i + len →
        isspace (memory.getD (2 * FtpPath.leadingSpaces memory len i) 0) = false) := by
  induction len generalizing i with
  | zero =>
      refine ⟨le_rfl, le_rfl, ?_, ?_⟩
      · intro j hle hlt
        rw [FtpPath.leadingSpaces] at hlt
        omega
      · intro hlt
        rw [FtpPath.leadingSpaces] at hlt
        omega
  | succ len ih =>
      rw [FtpPath.leadingSpaces]
      split
      · rename_i hspace
        obtain ⟨hle, hbound, hspaces, hstop⟩ := ih (i + 1)
        refine ⟨by omega, by omega, ?_, ?_⟩
        · intro j hj hlt
          rcases Nat.eq_or_lt_of_le hj with rfl | hless
          · exact hspace
          · exact hspaces j hless hlt
        · intro hlt
          exact hstop (by omega)
      · rename_i hspace
        refine ⟨le_rfl, by omega, ?_, ?_⟩
        · intro j hle hlt
          omega
        · intro _
          exact Bool.eq_false_iff.mpr hspace

theorem rdropWhile_append {bytes more : Bytes} (h : ∀ b ∈ more, isspace b = true) :
    (bytes ++ more).rdropWhile isspace = bytes.rdropWhile isspace := by
  induction more using List.reverseRecOn with
  | nil => rw [List.append_nil]
  | append_singleton more b ih =>
      rw [← List.append_assoc, List.rdropWhile_concat_pos _ _ _ (h b (by simp))]
      exact ih (fun c hc => h c (List.mem_append_left _ hc))

theorem rdropWhile_drop {string : Bytes} {last : Nat} (hcore : Core string last) (k : Nat) :
    (string.drop k).rdropWhile isspace = (string.take (last + 1)).drop k := by
  have hlast := hcore.last_lt
  have hbehind : ∀ b ∈ (string.drop (last + 1)).drop (k - (last + 1)), isspace b = true := by
    intro b hb
    rw [List.drop_drop] at hb
    obtain ⟨i, hi, rfl⟩ := List.mem_iff_getElem.mp hb
    rw [List.length_drop] at hi
    rw [List.getElem_drop, ← List.getD_eq_getElem _ 0]
    exact hcore.isspace_behind _ (by omega) (by omega)
  have hsplit : string.drop k = (string.take (last + 1)).drop k ++
      (string.drop (last + 1)).drop (k - (last + 1)) := by
    conv_lhs => rw [← List.take_append_drop (last + 1) string]
    rw [List.drop_append, List.length_take, Nat.min_eq_left hlast]
  rw [hsplit, rdropWhile_append hbehind, List.rdropWhile_eq_self_iff]
  intro hne
  have hlen := List.length_pos_of_ne_nil hne
  rw [List.length_drop, List.length_take, Nat.min_eq_left hlast] at hlen
  have hend : ((string.take (last + 1)).drop k).getLast hne = string.getD last 0 := by
    rw [List.getLast_eq_getElem, List.getElem_drop, List.getElem_take,
      List.getD_eq_getElem _ _ hlast]
    congr 1
    rw [List.length_drop, List.length_take, Nat.min_eq_left hlast]
    omega
  rw [hend, hcore.isspace_last]
  exact Bool.false_ne_true

section

variable {memory : Bytes} (hzero : 0 ∈ memory) (hlen : memory.length < 2 ^ 31)

include hzero hlen

theorem skipped_eq {k : Nat} (hk : k ≤ (FtpPath.cString memory).length)
    (hskipped : ∀ j < k, isspace ((ofMemory memory hzero hlen).cell (.ofNat (2 * j))) = true)
    (hstop : k < (FtpPath.cString memory).length →
      isspace ((ofMemory memory hzero hlen).cell (.ofNat (2 * k))) = false) :
    k = FtpPath.leadingSpaces memory (FtpPath.cString memory).length 0 := by
  have hless := FtpPath.cString_length_lt hzero
  obtain ⟨-, hbound, hspaces, hother⟩ :=
    leadingSpaces_spec memory (FtpPath.cString memory).length 0
  have hcell : ∀ j, j < (FtpPath.cString memory).length →
      (ofMemory memory hzero hlen).cell (.ofNat (2 * j)) = memory.getD (2 * j) 0 := by
    intro j hj
    simp only [ofMemory]
    rw [UInt32.toNat_ofNat_of_lt' (by change _ < 2 ^ 32; omega)]
  rw [Nat.zero_add] at hbound hother
  apply Nat.le_antisymm
  · rw [← Nat.not_lt]
    intro hlt
    have hspace := hskipped _ hlt
    rw [hcell _ (by omega), hother (by omega)] at hspace
    cases hspace
  · rw [← Nat.not_lt]
    intro hlt
    have hspace := hspaces k (Nat.zero_le k) hlt
    rw [← hcell _ (by omega), hstop (by omega)] at hspace
    cases hspace

theorem trim_string : ∃ fuel s m,
    lftpdStringTrim fuel 0 ⟨(ofMemory memory hzero hlen).cell, []⟩ = some (s, m) ∧
      StoredAt m.cell s (FtpPath.lftpdStringTrim memory) := by
  obtain ⟨t, ht⟩ : ∃ t, ofMemory memory hzero hlen = t := ⟨_, rfl⟩
  have hstring : FtpPath.cString memory = t.string := congrArg Stored.string ht
  obtain ⟨fuel, s, m, hrun⟩ := trim_ends (ofMemory memory hzero hlen)
  refine ⟨fuel, s, m, hrun, ?_⟩
  have hmodel : ∀ k, k ≤ t.string.length → (∀ j < k, isspace (t.cell (.ofNat (2 * j))) = true) →
      (k < t.string.length → isspace (t.cell (.ofNat (2 * k))) = false) →
      FtpPath.lftpdStringTrim memory = (t.string.drop k).rdropWhile isspace := by
    intro k hk hskipped hstop
    rw [← hstring] at hk hstop ⊢
    rw [← ht] at hskipped hstop
    rw [FtpPath.lftpdStringTrim, ← skipped_eq hzero hlen hk hskipped hstop, FtpPath.cString_drop hk]
  rw [ht] at hrun
  cases hall : t.string.all isspace with
  | true =>
      obtain ⟨k, m₁, hk, hs, hcell, hskipped, hstop, -, hend⟩ := trim_parts t hrun
      have hnil : (t.string.drop k).rdropWhile isspace = [] := by
        rw [List.rdropWhile_eq_nil_iff]
        exact fun b hb => List.all_eq_true.mp hall b (List.mem_of_mem_drop hb)
      rw [hmodel k hk hskipped hstop, hnil, hs]
      apply storedAt_nil
      rcases hend with ⟨hlast, rfl⟩ | ⟨hlt, hclear⟩
      · rw [hcell, hlast, cell_length]
      · have hlength := t.length_lt
        refine clear_reaches (clear_place hlt) hclear (by omega) (by omega) ?_
        intro j _ hj
        rw [hcell]
        exact cell_blank hall (by omega)
  | false =>
      obtain ⟨last, hcore⟩ := exists_core hall
      obtain ⟨k, hk, hs, hskipped, hstop, hcells, -⟩ := mixed_result hcore hrun
      have hlast := hcore.last_lt
      have hlength := t.length_lt
      rw [hmodel k hk hskipped hstop, rdropWhile_drop hcore, hs]
      intro i hi
      rw [List.length_drop, List.length_take, Nat.min_eq_left hlast] at hi
      rw [← UInt32.ofNat_add, hcells, @toNat_ofNat t _ (by omega)]
      simp only [List.getD_eq_getElem?_getD, List.getElem?_drop, List.getElem?_take]
      rcases Nat.lt_or_ge (k + i) (last + 1) with hin | hout
      · rw [if_neg (by omega), if_pos hin, cell_eq t (by omega), List.getD_eq_getElem?_getD]
      · rw [if_neg (Nat.not_lt.mpr hout)]
        split
        · rfl
        · have hend : k + i = t.string.length := by omega
          rw [hend, cell_length]
          rfl

end

end ZeusLe.FtpTrim
