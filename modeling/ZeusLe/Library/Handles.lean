import ZeusLe.Library.Run

/-!
Handles that the environment hands out, and that are used and given back: which
are held after a sequence of operations, and when it uses and gives back only
what is held.
-/

namespace ZeusLe.Library.Handles

open ZeusLe.Library.Run

universe u

/-- An operation on a handle. -/
inductive Op (H : Type u) where
  | acquire (h : H)
  | use (h : H)
  | release (h : H)
  deriving DecidableEq, Repr

variable {H : Type u} [DecidableEq H]

/-- The handles held after an operation. -/
def hold (held : List H) : Op H → List H
  | .acquire h => h :: held
  | .use _ => held
  | .release h => held.erase h

/-- The environment hands out a handle that is not held. -/
def Fresh (held : List H) : Op H → Prop
  | .acquire h => h ∉ held
  | .use _ => True
  | .release _ => True

/-- Only what is held is used or given back. -/
def Valid (held : List H) : Op H → Prop
  | .acquire _ => True
  | .use h => h ∈ held
  | .release h => h ∈ held

instance decidableFresh (held : List H) : (op : Op H) → Decidable (Fresh held op)
  | .acquire h => inferInstanceAs (Decidable (h ∉ held))
  | .use _ => isTrue trivial
  | .release _ => isTrue trivial

instance decidableValid (held : List H) : (op : Op H) → Decidable (Valid held op)
  | .acquire _ => isTrue trivial
  | .use h => inferInstanceAs (Decidable (h ∈ held))
  | .release h => inferInstanceAs (Decidable (h ∈ held))

theorem nodup_run {held : List H} (hnodup : held.Nodup) {ops : List (Op H)}
    (hfresh : Along hold Fresh held ops) : (run hold held ops).Nodup := by
  refine invariant_run (P := fun held : List H => held.Nodup) ?_ hnodup hfresh
  intro held op hnodup hfresh
  cases op with
  | acquire h => exact List.nodup_cons.mpr ⟨hfresh, hnodup⟩
  | use h => exact hnodup
  | release h => exact hnodup.erase h

/-- When the environment hands out fresh handles the operations are valid and lead
from the handles `held` to the handles `held'`. -/
def Accounts (held : List H) (ops : List (Op H)) (held' : List H) : Prop :=
  Along hold Fresh held ops → Along hold Valid held ops ∧ run hold held ops = held'

theorem Accounts.nil (held : List H) : Accounts held [] held :=
  fun _ => ⟨trivial, rfl⟩

theorem Accounts.append {held held' held'' : List H} {ops ops' : List (Op H)}
    (h : Accounts held ops held') (h' : Accounts held' ops' held'') :
    Accounts held (ops ++ ops') held'' := by
  intro hfresh
  obtain ⟨hfresh, hfresh'⟩ := (along_append _ _ _ _ _).mp hfresh
  obtain ⟨hvalid, hrun⟩ := h hfresh
  rw [hrun] at hfresh'
  obtain ⟨hvalid', hrun'⟩ := h' hfresh'
  constructor
  · apply (along_append _ _ _ _ _).mpr
    rw [hrun]
    exact ⟨hvalid, hvalid'⟩
  · rw [run_append, hrun]
    exact hrun'

theorem Accounts.acquire (held : List H) (h : H) : Accounts held [.acquire h] (h :: held) :=
  fun _ => ⟨⟨trivial, trivial⟩, rfl⟩

theorem Accounts.release {held : List H} {h : H} (hmem : h ∈ held) :
    Accounts held [.release h] (held.erase h) :=
  fun _ => ⟨⟨hmem, trivial⟩, rfl⟩

theorem Accounts.uses {held : List H} {ops : List (Op H)}
    (h : ∀ op ∈ ops, ∃ handle ∈ held, op = .use handle) : Accounts held ops held := by
  induction ops with
  | nil => exact .nil held
  | cons op ops ih =>
      obtain ⟨handle, hmem, rfl⟩ := h op List.mem_cons_self
      intro hfresh
      obtain ⟨hvalid, hrun⟩ := ih (fun op hop => h op (List.mem_cons_of_mem _ hop)) hfresh.2
      exact ⟨⟨hmem, hvalid⟩, hrun⟩

end ZeusLe.Library.Handles
