import Mathlib.Data.List.Pairwise
import Mathlib.Data.List.ReduceOption
import Mathlib.Order.Defs.PartialOrder

/-!
A register that is written under growing version numbers and sampled at
arbitrary times. The reader acts on the content whenever the version is another
one than at its last sample.
-/

namespace ZeusLe.Library.Versions

universe u

structure Sample (α : Type u) where
  version : Nat
  content : Option α
  deriving DecidableEq, Repr

variable {α : Type u}

/-- What may follow what in the register: a version has one content, and the
contents of later versions are greater. -/
structure Sample.Before [LT α] (a b : Sample α) : Prop where
  version_le : a.version ≤ b.version
  content_eq : a.version = b.version → a.content = b.content
  content_lt : a.version < b.version → ∀ x ∈ a.content, ∀ y ∈ b.content, x < y

/-- What the reader acts on at each sample. -/
def acted (last : Sample α) : List (Sample α) → List (Option α)
  | [] => []
  | s :: rest => (if s.version = last.version then none else s.content) :: acted s rest

section Order

variable [Preorder α]

theorem Sample.before_refl (a : Sample α) : a.Before a where
  version_le := Nat.le_refl _
  content_eq _ := rfl
  content_lt h := absurd h (Nat.lt_irrefl _)

theorem Sample.Before.next {a b : Sample α} (h : a.Before b) {content : Option α}
    (hlt : ∀ x ∈ a.content, ∀ y ∈ content, x < y) : a.Before ⟨b.version + 1, content⟩ where
  version_le := Nat.le_succ_of_le h.version_le
  content_eq heq := by
    have hle := h.version_le
    have heq' : a.version = b.version + 1 := heq
    omega
  content_lt _ := hlt

theorem Sample.Before.version_eq {a b : Sample α} (h : a.Before b) {x : α}
    (ha : a.content = some x) (hb : b.content = some x) : a.version = b.version := by
  by_contra hne
  have hlt : a.version < b.version := Nat.lt_of_le_of_ne h.version_le hne
  exact lt_irrefl x (h.content_lt hlt x ha x hb)

theorem Sample.Before.trans_version {a b c : Sample α} (hab : a.Before b) (hbc : b.Before c)
    (hac : a.version = c.version) : b.content = c.content := by
  have hle := hab.version_le
  have hle' := hbc.version_le
  exact hbc.content_eq (by omega)

theorem acted_getElem? [DecidableEq α] {last : Sample α} {samples : List (Sample α)}
    (h : (last :: samples).Pairwise Sample.Before) (i : Nat) :
    (acted last samples)[i]? = samples[i]?.map fun s =>
      if s.content ∈ (last :: samples.take i).map Sample.content then none else s.content := by
  induction samples generalizing last i with
  | nil => simp [acted]
  | cons s rest ih =>
      obtain ⟨hlast, hrest⟩ := List.pairwise_cons.mp h
      have hbefore : last.Before s := hlast s List.mem_cons_self
      cases i with
      | zero =>
          simp only [acted, List.getElem?_cons_zero, List.take_zero, List.map_cons, List.map_nil,
            List.mem_singleton, Option.map_some]
          by_cases hversion : s.version = last.version
          · rw [if_pos hversion, if_pos (hbefore.content_eq hversion.symm).symm]
          · rw [if_neg hversion]
            split
            · next heq =>
                rcases hcontent : s.content with _ | x
                · rfl
                · exact absurd (hbefore.version_eq (heq ▸ hcontent) hcontent).symm hversion
            · rfl
      | succ i =>
          simp only [acted, List.getElem?_cons_succ, ih hrest i, List.take_succ_cons]
          rcases hr : rest[i]? with _ | r
          · rfl
          · simp only [Option.map_some, List.map_cons, List.mem_cons]
            have hmem : r ∈ rest := List.mem_of_getElem? hr
            have hsr : s.Before r := (List.pairwise_cons.mp hrest).1 r hmem
            have hlr : last.Before r := hlast r (List.mem_cons_of_mem s hmem)
            rcases hcontent : r.content with _ | x
            · simp
            · have hskip : some x = last.content → some x = s.content := by
                intro heq
                have hversion := hlr.version_eq heq.symm hcontent
                rw [hbefore.trans_version hsr hversion, hcontent]
              by_cases heq : some x = last.content
              · simp [heq, ← hskip heq]
              · simp [heq]

theorem acted_mem {last : Sample α} {samples : List (Sample α)}
    (h : (last :: samples).Pairwise Sample.Before) {x : α}
    (hx : some x ∈ acted last samples) :
    ∃ s ∈ samples, last.version < s.version ∧ s.content = some x := by
  induction samples generalizing last with
  | nil => simp [acted] at hx
  | cons s rest ih =>
      obtain ⟨hlast, hrest⟩ := List.pairwise_cons.mp h
      have hle := (hlast s List.mem_cons_self).version_le
      rcases List.mem_cons.mp hx with hhead | htail
      · split at hhead
        · cases hhead
        · exact ⟨s, List.mem_cons_self, by omega, hhead.symm⟩
      · obtain ⟨r, hr, hlt, hcontent⟩ := ih hrest htail
        exact ⟨r, List.mem_cons_of_mem s hr, by omega, hcontent⟩

theorem acted_pairwise {last : Sample α} {samples : List (Sample α)}
    (h : (last :: samples).Pairwise Sample.Before) :
    (acted last samples).reduceOption.Pairwise (· < ·) := by
  induction samples generalizing last with
  | nil => exact List.Pairwise.nil
  | cons s rest ih =>
      obtain ⟨-, hrest⟩ := List.pairwise_cons.mp h
      rcases hhead : (if s.version = last.version then none else s.content) with _ | x
      · rw [acted, hhead, List.reduceOption_cons_of_none]
        exact ih hrest
      · rw [acted, hhead, List.reduceOption_cons_of_some]
        refine List.pairwise_cons.mpr ⟨fun y hy => ?_, ih hrest⟩
        obtain ⟨r, hr, hlt, hcontent⟩ := acted_mem hrest (List.reduceOption_mem_iff.mp hy)
        have hx : s.content = some x := by
          split at hhead
          · cases hhead
          · exact hhead
        exact ((List.pairwise_cons.mp hrest).1 r hr).content_lt hlt x hx y hcontent

theorem mem_acted {last : Sample α} {samples : List (Sample α)}
    (h : (last :: samples).Pairwise Sample.Before) {x : α} (hlast : last.content ≠ some x)
    (hx : ∃ s ∈ samples, s.content = some x) : some x ∈ acted last samples := by
  induction samples generalizing last with
  | nil =>
      obtain ⟨s, hs, -⟩ := hx
      cases hs
  | cons s rest ih =>
      obtain ⟨hbefore, hrest⟩ := List.pairwise_cons.mp h
      rcases Classical.em (s.content = some x) with hhead | hhead
      · have hversion : s.version ≠ last.version := by
          intro heq
          exact hlast (((hbefore s List.mem_cons_self).content_eq heq.symm).trans hhead)
        rw [acted, if_neg hversion, hhead]
        exact List.mem_cons_self
      · obtain ⟨r, hr, hcontent⟩ := hx
        rcases List.mem_cons.mp hr with rfl | htail
        · exact absurd hcontent hhead
        · exact List.mem_cons_of_mem _ (ih hrest hhead ⟨r, htail, hcontent⟩)

end Order

theorem getLast?_eq_of_greatest [Preorder α] {l : List α} (hl : l.Pairwise (· < ·)) {x : α}
    (hx : x ∈ l) (hmax : ∀ y ∈ l, ¬ x < y) : l.getLast? = some x := by
  have hsome : l.getLast?.isSome = true := List.getLast?_isSome.mpr (List.ne_nil_of_mem hx)
  obtain ⟨z, hz⟩ := Option.isSome_iff_exists.mp hsome
  obtain ⟨front, rfl⟩ := List.getLast?_eq_some_iff.mp hz
  rcases List.mem_append.mp hx with hfront | hend
  · have hlt : x < z := (List.pairwise_append.mp hl).2.2 x hfront z List.mem_cons_self
    exact absurd hlt (hmax z (List.mem_append_right _ List.mem_cons_self))
  · rw [hz, List.mem_singleton.mp hend]

theorem acted_getLast? [Preorder α] {last : Sample α} {samples : List (Sample α)}
    (h : (last :: samples).Pairwise Sample.Before) {x : α} (hlast : last.content ≠ some x)
    (hx : ∃ s ∈ samples, s.content = some x)
    (hmax : ∀ s ∈ samples, ∀ y ∈ s.content, ¬ x < y) :
    (acted last samples).reduceOption.getLast? = some x := by
  apply getLast?_eq_of_greatest (acted_pairwise h)
  · exact List.reduceOption_mem_iff.mpr (mem_acted h hlast hx)
  · intro y hy
    obtain ⟨s, hs, -, hcontent⟩ := acted_mem h (List.reduceOption_mem_iff.mp hy)
    exact hmax s hs y hcontent

theorem filterMap_getElem?_sublist_drop (l : List α) {positions : List Nat} {m : Nat}
    (hpairs : positions.Pairwise (· < ·)) (hle : ∀ k ∈ positions, m ≤ k) :
    (positions.filterMap (l[·]?)).Sublist (l.drop m) := by
  induction positions generalizing m with
  | nil => exact List.nil_sublist _
  | cons k positions ih =>
      obtain ⟨hlt, hpairs⟩ := List.pairwise_cons.mp hpairs
      have hrest : (positions.filterMap (l[·]?)).Sublist (l.drop (k + 1)) := ih hpairs hlt
      have hdrop : (l.drop k).Sublist (l.drop m) :=
        List.drop_sublist_drop_left l (hle k List.mem_cons_self)
      refine List.Sublist.trans ?_ hdrop
      by_cases hk : k < l.length
      · rw [List.drop_eq_getElem_cons hk,
          List.filterMap_cons_some (List.getElem?_eq_getElem hk)]
        exact hrest.cons_cons _
      · rw [List.filterMap_cons_none (List.getElem?_eq_none (Nat.not_lt.mp hk))]
        exact hrest.trans (List.drop_sublist_drop_left l (Nat.le_succ k))

theorem filterMap_getElem?_sublist (l : List α) {positions : List Nat}
    (hpairs : positions.Pairwise (· < ·)) : (positions.filterMap (l[·]?)).Sublist l :=
  filterMap_getElem?_sublist_drop l hpairs fun _ _ => Nat.zero_le _

end ZeusLe.Library.Versions
