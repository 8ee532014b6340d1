import Mathlib.Data.List.Nodup
import Mathlib.Logic.Function.Basic
import ZeusLe.Library.Handles

/-!
Handles that several owners take from one table: whoever uses and gives back only
its own handles never touches those of another.
-/

namespace ZeusLe.Library.Owners

open ZeusLe.Library.Handles

universe u v

variable {O : Type u} {H : Type v}

/-- The handles that are in use, and who holds them. -/
structure Table (O : Type u) (H : Type v) where
  opened : List H
  holds : O → List H

structure Owned (t : Table O H) : Prop where
  nodup : t.opened.Nodup
  mem_iff : ∀ h, h ∈ t.opened ↔ ∃ o, h ∈ t.holds o
  nodup_holds : ∀ o, (t.holds o).Nodup
  owner_eq : ∀ o o' h, h ∈ t.holds o → h ∈ t.holds o' → o = o'

variable [DecidableEq O] [DecidableEq H]

/-- An operation of one owner. -/
def Table.op (t : Table O H) (o : O) (op : Op H) : Table O H where
  opened := hold t.opened op
  holds := Function.update t.holds o (hold (t.holds o) op)

/-- A handle goes from one owner to another. -/
def Table.give (t : Table O H) (o o' : O) (h : H) : Table O H where
  opened := t.opened
  holds :=
    Function.update (Function.update t.holds o ((t.holds o).erase h)) o' (h :: t.holds o')

@[simp] theorem Table.op_opened (t : Table O H) (o : O) (op : Op H) :
    (t.op o op).opened = hold t.opened op :=
  rfl

@[simp] theorem Table.op_holds_self (t : Table O H) (o : O) (op : Op H) :
    (t.op o op).holds o = hold (t.holds o) op :=
  Function.update_self _ _ _

theorem Table.op_holds_of_ne (t : Table O H) {o other : O} (hne : other ≠ o) (op : Op H) :
    (t.op o op).holds other = t.holds other :=
  Function.update_of_ne hne _ _

theorem Table.give_holds_of_ne (t : Table O H) {o o' other : O} (hne : other ≠ o)
    (hne' : other ≠ o') (h : H) : (t.give o o' h).holds other = t.holds other := by
  rw [give]
  simp only
  rw [Function.update_of_ne hne', Function.update_of_ne hne]

theorem Table.give_holds_left (t : Table O H) {o o' : O} (hne : o ≠ o') (h : H) :
    (t.give o o' h).holds o = (t.holds o).erase h := by
  rw [give]
  simp only
  rw [Function.update_of_ne hne, Function.update_self]

@[simp] theorem Table.give_holds_right (t : Table O H) (o o' : O) (h : H) :
    (t.give o o' h).holds o' = h :: t.holds o' :=
  Function.update_self _ _ _

theorem Owned.acquire {t : Table O H} (ht : Owned t) (o : O) {h : H} (hfresh : h ∉ t.opened) :
    Owned (t.op o (.acquire h)) := by
  have hnobody : ∀ other, h ∉ t.holds other := fun other hmem =>
    hfresh ((ht.mem_iff h).mpr ⟨other, hmem⟩)
  have hmem : ∀ other x, x ∈ (t.op o (.acquire h)).holds other ↔
      (x = h ∧ other = o) ∨ x ∈ t.holds other := by
    intro other x
    by_cases heq : other = o
    · subst heq
      simp [hold]
    · rw [t.op_holds_of_ne heq]
      simp [heq]
  constructor
  · exact List.nodup_cons.mpr ⟨hfresh, ht.nodup⟩
  · intro x
    simp only [Table.op_opened, hold, List.mem_cons, ht.mem_iff, hmem]
    constructor
    · rintro (rfl | ⟨other, hx⟩)
      · exact ⟨o, Or.inl ⟨rfl, rfl⟩⟩
      · exact ⟨other, Or.inr hx⟩
    · rintro ⟨other, ⟨rfl, -⟩ | hx⟩
      · exact Or.inl rfl
      · exact Or.inr ⟨other, hx⟩
  · intro other
    by_cases heq : other = o
    · subst heq
      rw [Table.op_holds_self]
      exact List.nodup_cons.mpr ⟨hnobody other, ht.nodup_holds other⟩
    · rw [t.op_holds_of_ne heq]
      exact ht.nodup_holds other
  · intro x y z hx hy
    rw [hmem] at hx hy
    rcases hx with ⟨rfl, rfl⟩ | hx
    · rcases hy with ⟨-, rfl⟩ | hy
      · rfl
      · exact absurd hy (hnobody y)
    · rcases hy with ⟨rfl, rfl⟩ | hy
      · exact absurd hx (hnobody x)
      · exact ht.owner_eq x y z hx hy

theorem Owned.release {t : Table O H} (ht : Owned t) {o : O} {h : H} (hmine : h ∈ t.holds o) :
    Owned (t.op o (.release h)) := by
  have hmem : ∀ other x, x ∈ (t.op o (.release h)).holds other ↔ x ≠ h ∧ x ∈ t.holds other := by
    intro other x
    by_cases heq : other = o
    · subst heq
      rw [Table.op_holds_self]
      exact (ht.nodup_holds other).mem_erase_iff
    · rw [t.op_holds_of_ne heq]
      refine ⟨fun hx => ⟨?_, hx⟩, And.right⟩
      rintro rfl
      exact heq (ht.owner_eq other o x hx hmine)
  constructor
  · exact ht.nodup.erase h
  · intro x
    simp only [Table.op_opened, hold, ht.nodup.mem_erase_iff, ht.mem_iff, hmem, exists_and_left]
  · intro other
    by_cases heq : other = o
    · subst heq
      rw [Table.op_holds_self]
      exact (ht.nodup_holds other).erase h
    · rw [t.op_holds_of_ne heq]
      exact ht.nodup_holds other
  · intro x y z hx hy
    exact ht.owner_eq x y z ((hmem x z).mp hx).2 ((hmem y z).mp hy).2

theorem Owned.op {t : Table O H} (ht : Owned t) {o : O} {op : Op H} (hfresh : Fresh t.opened op)
    (hvalid : Valid (t.holds o) op) : Owned (t.op o op) := by
  cases op with
  | acquire h => exact ht.acquire o hfresh
  | use h =>
      have hsame : t.op o (.use h) = t := by
        simp only [Table.op, hold, Function.update_eq_self]
      rw [hsame]
      exact ht
  | release h => exact ht.release hvalid

theorem Owned.give {t : Table O H} (ht : Owned t) {o o' : O} (hne : o ≠ o') {h : H}
    (hmine : h ∈ t.holds o) : Owned (t.give o o' h) := by
  have hnot : h ∉ t.holds o' := fun hmem => hne (ht.owner_eq o o' h hmine hmem)
  have hmem : ∀ other x, x ∈ (t.give o o' h).holds other ↔
      (x = h ∧ other = o') ∨ (x ≠ h ∧ x ∈ t.holds other) := by
    intro other x
    by_cases heq' : other = o'
    · subst heq'
      rw [Table.give_holds_right, List.mem_cons]
      constructor
      · rintro (rfl | hx)
        · exact Or.inl ⟨rfl, rfl⟩
        · refine Or.inr ⟨?_, hx⟩
          rintro rfl
          exact hnot hx
      · rintro (⟨rfl, -⟩ | ⟨-, hx⟩)
        · exact Or.inl rfl
        · exact Or.inr hx
    · by_cases heq : other = o
      · subst heq
        rw [t.give_holds_left hne, (ht.nodup_holds other).mem_erase_iff]
        simp [hne]
      · rw [t.give_holds_of_ne heq heq']
        simp only [heq', and_false, false_or]
        refine ⟨fun hx => ⟨?_, hx⟩, And.right⟩
        rintro rfl
        exact heq (ht.owner_eq other o x hx hmine)
  constructor
  · exact ht.nodup
  · intro x
    change x ∈ t.opened ↔ _
    simp only [hmem]
    constructor
    · intro hx
      by_cases heq : x = h
      · exact ⟨o', Or.inl ⟨heq, rfl⟩⟩
      · obtain ⟨other, hother⟩ := (ht.mem_iff x).mp hx
        exact ⟨other, Or.inr ⟨heq, hother⟩⟩
    · rintro ⟨other, ⟨rfl, -⟩ | ⟨-, hx⟩⟩
      · exact (ht.mem_iff x).mpr ⟨o, hmine⟩
      · exact (ht.mem_iff x).mpr ⟨other, hx⟩
  · intro other
    by_cases heq' : other = o'
    · subst heq'
      rw [Table.give_holds_right]
      exact List.nodup_cons.mpr ⟨hnot, ht.nodup_holds other⟩
    · by_cases heq : other = o
      · subst heq
        rw [t.give_holds_left hne]
        exact (ht.nodup_holds other).erase h
      · rw [t.give_holds_of_ne heq heq']
        exact ht.nodup_holds other
  · intro x y z hx hy
    rw [hmem] at hx hy
    rcases hx with ⟨rfl, rfl⟩ | ⟨hzx, hx⟩
    · rcases hy with ⟨-, rfl⟩ | ⟨hz, -⟩
      · rfl
      · exact absurd rfl hz
    · rcases hy with ⟨rfl, -⟩ | ⟨-, hy⟩
      · exact absurd rfl hzx
      · exact ht.owner_eq x y z hx hy

end ZeusLe.Library.Owners
