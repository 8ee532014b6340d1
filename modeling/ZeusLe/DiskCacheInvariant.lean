import Mathlib.Algebra.Order.Group.Nat
import Mathlib.Data.List.Nodup
import ZeusLe.Library.Word
import ZeusLe.DiskCache

/-!
The blocks of the cache and the sectors in it, over every call and whatever the
disk below returns.
-/

namespace ZeusLe.DiskCacheInvariant

open ZeusLe.DiskCache
open ZeusLe.Library.Run
open ZeusLe.Library.Word

universe u

variable {α : Type u}

/-- No block is in two places, and no two entries in use hold the same sector. -/
structure WellFormed (c : Cache α) : Prop where
  nodup : (c.free ++ c.lruList).Nodup
  nonempty : 0 < c.free.length + c.lruList.length
  sector_inj : ∀ id ∈ c.lruList, ∀ id' ∈ c.lruList,
    (c.entries id).sector = (c.entries id').sector → id = id'

/-- How many sectors can be added before the entry is evicted. -/
def age (id : Nat) (c : Cache α) : Nat :=
  c.free.length + c.lruList.idxOf id

/-- The blocks that are free and those in use. -/
def blocks (c : Cache α) : List Nat :=
  c.free ++ c.lruList

theorem WellFormed.of_perm {c c' : Cache α} (h : WellFormed c)
    (hblocks : (blocks c').Perm (blocks c))
    (hinj : ∀ id ∈ c'.lruList, ∀ id' ∈ c'.lruList,
      (c'.entries id).sector = (c'.entries id').sector → id = id') : WellFormed c' := by
  refine ⟨hblocks.symm.nodup h.nodup, ?_, hinj⟩
  have hlength := hblocks.length_eq
  have hnonempty := h.nonempty
  simp only [blocks, List.length_append] at hlength
  omega

theorem mem_of_lookup {sector : UInt32} {c : Cache α} {id : Nat}
    (h : diskCacheLookup sector c = some id) :
    id ∈ c.lruList ∧ (c.entries id).sector = sector := by
  refine ⟨List.mem_of_find?_eq_some h, ?_⟩
  simpa using List.find?_some h

theorem lookup_eq_none_iff {sector : UInt32} {c : Cache α} :
    diskCacheLookup sector c = none ↔ ∀ id ∈ c.lruList, (c.entries id).sector ≠ sector := by
  simp [diskCacheLookup]

theorem diskCacheAdd_cases {c : Cache α} (h : WellFormed c) (sector : UInt32) (data : α) :
    ∃ id free lruList, id ∉ lruList ∧ (∀ id' ∈ lruList, id' ∈ c.lruList) ∧
      diskCacheAdd sector data c =
        { entries := Function.update c.entries id ⟨sector, data⟩
          free := free
          lruList := lruList ++ [id] } ∧
      ((c.free = id :: free ∧ c.lruList = lruList) ∨
        (c.free = [] ∧ free = [] ∧ c.lruList = id :: lruList)) := by
  have hnodup := h.nodup
  have hnonempty := h.nonempty
  rcases hfree : c.free with _ | ⟨id, free⟩
  · rcases hlru : c.lruList with _ | ⟨id, lruList⟩
    · rw [hfree, hlru] at hnonempty
      exact absurd hnonempty (Nat.lt_irrefl _)
    · rw [hfree, hlru, List.nil_append, List.nodup_cons] at hnodup
      refine ⟨id, [], lruList, hnodup.1, fun id' => List.mem_cons_of_mem id, ?_,
        .inr ⟨rfl, rfl, rfl⟩⟩
      simp only [diskCacheAdd, hfree, hlru]
  · rw [hfree, List.cons_append, List.nodup_cons, List.mem_append, not_or] at hnodup
    refine ⟨id, free, c.lruList, hnodup.1.2, fun _ hmem => hmem, ?_, .inl ⟨rfl, rfl⟩⟩
    simp only [diskCacheAdd, hfree]

theorem blocks_add {c : Cache α} (h : WellFormed c) (sector : UInt32) (data : α) :
    (blocks (diskCacheAdd sector data c)).Perm (blocks c) := by
  obtain ⟨id, free, lruList, -, -, hadd, hcases⟩ := diskCacheAdd_cases h sector data
  rw [hadd]
  simp only [blocks]
  rcases hcases with ⟨hfree, hlru⟩ | ⟨hfree, hfree', hlru⟩
  · rw [hfree, hlru, ← List.append_assoc]
    exact List.perm_append_singleton id _
  · rw [hfree, hfree', hlru]
    exact List.perm_append_singleton id _

theorem entries_add {c : Cache α} (h : WellFormed c) (sector : UInt32) (data : α) {id : Nat}
    (hid : id ∈ (diskCacheAdd sector data c).lruList) :
    (diskCacheAdd sector data c).entries id = ⟨sector, data⟩ ∨
      (id ∈ c.lruList ∧ (diskCacheAdd sector data c).entries id = c.entries id) := by
  obtain ⟨new, free, lruList, hnew, hsub, hadd, -⟩ := diskCacheAdd_cases h sector data
  rw [hadd] at hid ⊢
  simp only [List.mem_append, List.mem_singleton] at hid
  rcases hid with hid | rfl
  · have hne : id ≠ new := fun heq => hnew (heq ▸ hid)
    exact .inr ⟨hsub id hid, Function.update_of_ne hne _ _⟩
  · exact .inl (Function.update_self _ _ _)

theorem wellFormed_add {c : Cache α} (h : WellFormed c) {sector : UInt32} (data : α)
    (hnew : diskCacheLookup sector c = none) : WellFormed (diskCacheAdd sector data c) := by
  refine h.of_perm (blocks_add h sector data) ?_
  obtain ⟨id, free, lruList, hid, hsub, hadd, -⟩ := diskCacheAdd_cases h sector data
  have hkeep : ∀ id' ∈ lruList,
      Function.update c.entries id ⟨sector, data⟩ id' = c.entries id' :=
    fun id' hmem => Function.update_of_ne (fun heq : id' = id => hid (heq ▸ hmem)) _ _
  have hother : ∀ id' ∈ lruList, (c.entries id').sector ≠ sector :=
    fun id' hmem => lookup_eq_none_iff.mp hnew id' (hsub id' hmem)
  rw [hadd]
  intro a ha b hb
  simp only [List.mem_append, List.mem_singleton] at ha hb
  rcases ha with ha | rfl
  · rcases hb with hb | rfl
    · simp only [hkeep a ha, hkeep b hb]
      exact h.sector_inj a (hsub a ha) b (hsub b hb)
    · simp only [hkeep a ha, Function.update_self]
      exact fun heq => absurd heq (hother a ha)
  · rcases hb with hb | rfl
    · simp only [hkeep b hb, Function.update_self]
      exact fun heq => absurd heq.symm (hother b hb)
    · exact fun _ => rfl

theorem lookup_add {c : Cache α} (h : WellFormed c) {sector other : UInt32} (data : α)
    (hne : other ≠ sector) (hnone : diskCacheLookup other c = none) :
    diskCacheLookup other (diskCacheAdd sector data c) = none := by
  rw [lookup_eq_none_iff]
  intro id hid
  rcases entries_add h sector data hid with hnew | ⟨hmem, hsame⟩
  · rw [hnew]
    exact hne.symm
  · rw [hsame]
    exact lookup_eq_none_iff.mp hnone id hmem

/-- An entry in use stays in the list. Unless it is the next to be evicted, it
stays as it is and is one step nearer to that. -/
theorem add_entry {c : Cache α} (h : WellFormed c) (sector : UInt32) (data : α) {id : Nat}
    (hid : id ∈ c.lruList) :
    id ∈ (diskCacheAdd sector data c).lruList ∧
      (age id c = 0 → ((diskCacheAdd sector data c).entries id).sector = sector) ∧
      (0 < age id c → (diskCacheAdd sector data c).entries id = c.entries id ∧
        age id (diskCacheAdd sector data c) + 1 = age id c) := by
  obtain ⟨new, free, lruList, hnew, -, hadd, hcases⟩ := diskCacheAdd_cases h sector data
  rw [hadd]
  rcases hcases with ⟨hfree, hlru⟩ | ⟨hfree, hfree', hlru⟩
  · rw [hlru] at hid
    have hne : id ≠ new := fun heq => hnew (heq ▸ hid)
    refine ⟨List.mem_append_left _ hid, ?_, fun _ => ⟨Function.update_of_ne hne _ _, ?_⟩⟩
    · intro hage
      simp [age, hfree] at hage
    · simp only [age, hfree, hlru, List.idxOf_append_of_mem hid, List.length_cons]
      omega
  · rw [hlru] at hid
    rcases List.mem_cons.mp hid with rfl | hid
    · refine ⟨by simp, fun _ => by simp, ?_⟩
      intro hage
      simp [age, hfree, hlru] at hage
    · have hne : id ≠ new := fun heq => hnew (heq ▸ hid)
      refine ⟨List.mem_append_left _ hid, ?_, fun _ => ⟨Function.update_of_ne hne _ _, ?_⟩⟩
      · intro hage
        simp [age, hfree, hlru, List.idxOf_cons_ne _ hne.symm] at hage
      · simp only [age, hfree, hfree', hlru, List.idxOf_append_of_mem hid,
          List.idxOf_cons_ne _ hne.symm]
        omega

theorem blocks_bump {c : Cache α} {id : Nat} (hid : id ∈ c.lruList) :
    (blocks (diskCacheBump id c)).Perm (blocks c) :=
  ((List.perm_append_singleton id _).trans (List.perm_cons_erase hid).symm).append_left c.free

theorem mem_bump {c : Cache α} {id other : Nat} (hid : id ∈ c.lruList) :
    other ∈ (diskCacheBump id c).lruList ↔ other ∈ c.lruList :=
  ((List.perm_append_singleton id _).trans (List.perm_cons_erase hid).symm).mem_iff

theorem wellFormed_bump {c : Cache α} (h : WellFormed c) {id : Nat} (hid : id ∈ c.lruList) :
    WellFormed (diskCacheBump id c) := by
  apply h.of_perm (blocks_bump hid)
  intro a ha b hb
  exact h.sector_inj a ((mem_bump hid).mp ha) b ((mem_bump hid).mp hb)

theorem blocks_flush (c : Cache α) : (blocks (diskCacheFlush c)).Perm (blocks c) := by
  simp only [blocks, diskCacheFlush, List.append_nil]
  exact ((List.reverse_perm _).append_right _).trans List.perm_append_comm

theorem wellFormed_flush {c : Cache α} (h : WellFormed c) : WellFormed (diskCacheFlush c) := by
  apply h.of_perm (blocks_flush c)
  intro id hid
  exact absurd hid List.not_mem_nil

theorem sector_writeSector (data : Nat → α) (start : UInt32) (c : Cache α) (i id : Nat) :
    ((writeSector data start c i).entries id).sector = (c.entries id).sector := by
  simp only [writeSector]
  split
  · rfl
  · rename_i id' _
    rcases Classical.em (id = id') with rfl | hne
    · simp only [Function.update_self]
    · simp only [Function.update_of_ne hne]

theorem lists_writeSector (data : Nat → α) (start : UInt32) (c : Cache α) (i : Nat) :
    (writeSector data start c i).free = c.free ∧
      (writeSector data start c i).lruList = c.lruList := by
  simp only [writeSector]
  split
  · exact ⟨rfl, rfl⟩
  · exact ⟨rfl, rfl⟩

theorem wellFormed_writeSector {c : Cache α} (h : WellFormed c) (data : Nat → α) (start : UInt32)
    (i : Nat) : WellFormed (writeSector data start c i) := by
  obtain ⟨hfree, hlru⟩ := lists_writeSector data start c i
  constructor
  · rw [hfree, hlru]
    exact h.nodup
  · rw [hfree, hlru]
    exact h.nonempty
  · simp only [hlru, sector_writeSector]
    exact h.sector_inj

def addAll (disk : UInt32 → α) (first : UInt32) (m : Nat) (c : Cache α) : Cache α :=
  run (fun c k => diskCacheAdd (first + UInt32.ofNat k) (disk (first + UInt32.ofNat k)) c) c
    (List.range m)

theorem addAll_succ (disk : UInt32 → α) (first : UInt32) (m : Nat) (c : Cache α) :
    addAll disk first (m + 1) c =
      diskCacheAdd (first + UInt32.ofNat m) (disk (first + UInt32.ofNat m))
        (addAll disk first m c) := by
  simp only [addAll, List.range_succ, run_append, run_cons, run_nil]

/-- The assertions of `disk_cache_add`. -/
def AddAsserts (sector : UInt32) (c : Cache α) : Prop :=
  diskCacheLookup sector c = none ∧ (c.free = [] → c.lruList ≠ [])

theorem WellFormed.asserts {c : Cache α} (h : WellFormed c) {sector : UInt32}
    (hnew : diskCacheLookup sector c = none) : AddAsserts sector c := by
  refine ⟨hnew, ?_⟩
  intro hfree hlru
  have hnonempty := h.nonempty
  rw [hfree, hlru] at hnonempty
  exact absurd hnonempty (Nat.lt_irrefl _)

/-- What an addition of a missed sector and a bump keep. -/
structure Kept (disk : UInt32 → α) (Q : Cache α → Prop) : Prop where
  add : ∀ {c sector}, WellFormed c → diskCacheLookup sector c = none → Q c →
    Q (diskCacheAdd sector (disk sector) c)
  bump : ∀ {c id}, id ∈ c.lruList → Q c → Q (diskCacheBump id c)

/-- What the additions make of a cache: the entries that are old enough now hold
one of the new sectors, the others stay. -/
structure Added (disk : UInt32 → α) (first : UInt32) (m : Nat) (c c' : Cache α) : Prop where
  wellFormed : WellFormed c'
  keeps : ∀ {Q}, Kept disk Q → Q c → Q c'
  asserts : Along
    (fun c k => diskCacheAdd (first + UInt32.ofNat k) (disk (first + UInt32.ofNat k)) c)
    (fun c k => AddAsserts (first + UInt32.ofNat k) c) c (List.range m)
  lookup : ∀ sector, diskCacheLookup sector c = none →
    (∀ k < m, sector ≠ first + UInt32.ofNat k) → diskCacheLookup sector c' = none
  mem : ∀ id ∈ c.lruList, id ∈ c'.lruList
  kept : ∀ id ∈ c.lruList, m ≤ age id c →
    c'.entries id = c.entries id ∧ age id c' + m = age id c
  evicted : ∀ id ∈ c.lruList, age id c < m →
    ∃ k < m, (c'.entries id).sector = first + UInt32.ofNat k

theorem added_addAll {disk : UInt32 → α} {c : Cache α} (h : WellFormed c) {first : UInt32}
    {m : Nat} (hm : m ≤ 2 ^ 32)
    (hmissed : ∀ k < m, diskCacheLookup (first + UInt32.ofNat k) c = none) :
    Added disk first m c (addAll disk first m c) := by
  induction m with
  | zero =>
      exact
        { wellFormed := h
          keeps := fun _ hc => hc
          asserts := trivial
          lookup := fun _ hnone _ => hnone
          mem := fun _ hid => hid
          kept := fun _ _ _ => ⟨rfl, rfl⟩
          evicted := fun _ _ hage => absurd hage (Nat.not_lt_zero _) }
  | succ m ih =>
      have hprev := ih (by omega) fun k hk => hmissed k (Nat.lt_succ_of_lt hk)
      have hnew : diskCacheLookup (first + UInt32.ofNat m) (addAll disk first m c) = none := by
        apply hprev.lookup _ (hmissed m (Nat.lt_succ_self m))
        intro k hk heq
        have hsame := (add_ofNat_inj (by omega) (by omega)).mp heq
        omega
      have hentry := fun id hid => add_entry hprev.wellFormed (first + UInt32.ofNat m)
        (disk (first + UInt32.ofNat m)) (hprev.mem id hid)
      rw [addAll_succ]
      refine
        { wellFormed := wellFormed_add hprev.wellFormed _ hnew
          keeps := fun hQ hc => hQ.add hprev.wellFormed hnew (hprev.keeps hQ hc)
          asserts := ?_
          lookup := ?_
          mem := fun id hid => (hentry id hid).1
          kept := ?_
          evicted := ?_ }
      · rw [List.range_succ, along_append]
        exact ⟨hprev.asserts, hprev.wellFormed.asserts hnew, trivial⟩
      · intro sector hnone hne
        apply lookup_add hprev.wellFormed _ (hne m (Nat.lt_succ_self m))
        exact hprev.lookup sector hnone fun k hk => hne k (Nat.lt_succ_of_lt hk)
      · intro id hid hage
        obtain ⟨hsame, hage'⟩ := hprev.kept id hid (by omega)
        obtain ⟨hsame', hage''⟩ := (hentry id hid).2.2 (by omega)
        exact ⟨hsame'.trans hsame, by omega⟩
      · intro id hid hage
        rcases Nat.eq_zero_or_pos (age id (addAll disk first m c)) with hlast | hlast
        · exact ⟨m, Nat.lt_succ_self m, (hentry id hid).2.1 hlast⟩
        · have hage' : age id c < m := by
            rcases Nat.lt_or_ge (age id c) m with hlt | hge
            · exact hlt
            · have hkept := (hprev.kept id hid hge).2
              omega
          obtain ⟨k, hk, hsector⟩ := hprev.evicted id hid hage'
          refine ⟨k, Nat.lt_succ_of_lt hk, ?_⟩
          rw [((hentry id hid).2.2 hlast).1]
          exact hsector

def fillBuff (disk : UInt32 → α) (start : UInt32) (j i : Nat) (buff : Nat → α) : Nat → α :=
  fun k => if j ≤ k ∧ k < i then disk (start + UInt32.ofNat k) else buff k

theorem diskAccessRead_eq_fillBuff {disk : UInt32 → α} {start : UInt32} {j i : Nat}
    (hji : j ≤ i) (hi : i < 2 ^ 32) (buff : Nat → α) :
    diskAccessRead disk buff j (start + UInt32.ofNat j) (UInt32.ofNat (i - j)) =
      fillBuff disk start j i buff := by
  funext k
  simp only [diskAccessRead, fillBuff,
    UInt32.toNat_ofNat_of_lt' (show i - j < 2 ^ 32 by omega)]
  rw [Nat.add_sub_cancel' hji]
  split
  · next hk => rw [UInt32.add_assoc, ← UInt32.ofNat_add, Nat.add_sub_cancel' hk.1]
  · rfl

theorem fillBuff_added {disk : UInt32 → α} {start : UInt32} {j i k : Nat} (hk : k < i - j)
    (buff : Nat → α) :
    fillBuff disk start j i buff (j + k) = disk (start + UInt32.ofNat j + UInt32.ofNat k) := by
  rw [fillBuff, if_pos (by omega), UInt32.add_assoc, ← UInt32.ofNat_add]

/-- The loop before position `i`: the sectors from position `j` on were missed. -/
structure Scanning (start : UInt32) (i j : Nat) (s : ReadState α) : Prop where
  ret : s.ret = 0
  le : j ≤ i
  missStart : s.cacheMissStartSector = start + UInt32.ofNat j
  wellFormed : WellFormed s.cache
  missed : ∀ k, j ≤ k → k < i → diskCacheLookup (start + UInt32.ofNat k) s.cache = none

section

variable (disk : UInt32 → α) (io : UInt32 → UInt32 → Int) {start : UInt32} {i j : Nat}
  {s : ReadState α}

theorem Scanning.uncached (h : Scanning start i j s) :
    ∀ k < i - j,
      diskCacheLookup (start + UInt32.ofNat j + UInt32.ofNat k) s.cache = none := by
  intro k hk
  rw [UInt32.add_assoc, ← UInt32.ofNat_add]
  exact h.missed (j + k) (Nat.le_add_right _ _) (by omega)

theorem Scanning.added (h : Scanning start i j s) (hi : i < 2 ^ 32) :
    Added disk (start + UInt32.ofNat j) (i - j) s.cache
      (addAll disk (start + UInt32.ofNat j) (i - j) s.cache) :=
  added_addAll h.wellFormed (by omega) h.uncached

theorem Scanning.begin {c : Cache α} (h : WellFormed c) (start : UInt32) (buff : Nat → α) :
    Scanning start 0 0 (readBegin start buff c) where
  ret := rfl
  le := Nat.le_refl _
  missStart := by simp [readBegin]
  wellFormed := h
  missed _ _ hk := absurd hk (Nat.not_lt_zero _)

theorem Scanning.miss (h : Scanning start i j s)
    (hnone : diskCacheLookup (start + UInt32.ofNat i) s.cache = none) :
    Scanning start (i + 1) j s where
  ret := h.ret
  le := Nat.le_succ_of_le h.le
  missStart := h.missStart
  wellFormed := h.wellFormed
  missed := by
    intro k hjk hk
    rcases Nat.lt_succ_iff_lt_or_eq.mp hk with hk | rfl
    · exact h.missed k hjk hk
    · exact hnone

theorem Scanning.miss_ne (h : Scanning start i j s) (hi : i < 2 ^ 32) :
    s.cacheMissStartSector ≠ start + UInt32.ofNat i ↔ i ≠ j := by
  rw [h.missStart, ne_eq, ne_eq, add_ofNat_inj (by have := h.le; omega) hi]
  exact not_congr eq_comm

theorem Scanning.miss_num (h : Scanning start i j s) :
    start + UInt32.ofNat i - s.cacheMissStartSector = UInt32.ofNat (i - j) := by
  rw [h.missStart]
  exact sub_add_ofNat h.le

theorem Scanning.miss_offset (h : Scanning start i j s) (hi : i < 2 ^ 32) :
    (s.cacheMissStartSector - start).toNat = j := by
  have hle := h.le
  rw [h.missStart, UInt32.add_comm, UInt32.add_sub_cancel]
  exact UInt32.toNat_ofNat_of_lt' (show j < 2 ^ 32 by omega)

theorem Scanning.populate (h : Scanning start i j s) (hi : i < 2 ^ 32) :
    ((i ≠ j → 0 ≤ io (start + UInt32.ofNat j) (UInt32.ofNat (i - j))) →
      populateMisses disk io start (start + UInt32.ofNat i) s =
        { s with
          buff := fillBuff disk start j i s.buff
          cache := addAll disk (start + UInt32.ofNat j) (i - j) s.cache }) ∧
    (i ≠ j → io (start + UInt32.ofNat j) (UInt32.ofNat (i - j)) < 0 →
      populateMisses disk io start (start + UInt32.ofNat i) s =
        { s with ret := io (start + UInt32.ofNat j) (UInt32.ofNat (i - j)) }) := by
  have hsize : (UInt32.ofNat (i - j)).toNat = i - j :=
    UInt32.toNat_ofNat_of_lt' (show i - j < 2 ^ 32 by omega)
  simp only [populateMisses, h.miss_ne hi, h.miss_num, h.miss_offset hi]
  constructor
  · intro hio
    split
    · rename_i hne
      have hok := Int.not_lt.mpr (hio hne)
      have hcache : run (fun c k => diskCacheAdd (start + UInt32.ofNat j + UInt32.ofNat k)
            (fillBuff disk start j i s.buff (j + k)) c) s.cache (List.range (i - j)) =
          addAll disk (start + UInt32.ofNat j) (i - j) s.cache := by
        apply List.foldl_ext _ _ _
        intro c k hk
        rw [fillBuff_added (List.mem_range.mp hk)]
      simp only [h.missStart, diskCachePopulate, if_neg hok, hsize,
        diskAccessRead_eq_fillBuff h.le hi, hcache, h.ret]
    · rename_i heq
      obtain rfl := not_not.mp heq
      have hbuff : fillBuff disk start i i s.buff = s.buff := by
        funext k
        exact if_neg fun hk => absurd hk.2 (Nat.not_lt.mpr hk.1)
      simp only [hbuff, Nat.sub_self, addAll, List.range_zero, run_nil]
  · intro hne hio
    rw [if_pos hne]
    simp only [h.missStart, diskCachePopulate, if_pos hio]

end

section

variable (disk : UInt32 → α) (io : UInt32 → UInt32 → Int) (start : UInt32)

def PopulateAsserts (ret : Int) (buff : Nat → α) (offset : Nat) (start num : UInt32)
    (c : Cache α) : Prop :=
  0 ≤ ret →
    Along
      (fun c i => diskCacheAdd (start + UInt32.ofNat i)
        (diskAccessRead disk buff offset start num (offset + i)) c)
      (fun c i => AddAsserts (start + UInt32.ofNat i) c) c (List.range num.toNat)

def MissesAssert (sector : UInt32) (s : ReadState α) : Prop :=
  s.cacheMissStartSector ≠ sector →
    let num := sector - s.cacheMissStartSector
    PopulateAsserts disk (io s.cacheMissStartSector num) s.buff
      (s.cacheMissStartSector - start).toNat s.cacheMissStartSector num s.cache

def RoundAsserts (s : ReadState α) (i : Nat) : Prop :=
  0 ≤ s.ret → ∀ entry, diskCacheLookup (start + UInt32.ofNat i) s.cache = some entry →
    MissesAssert disk io start (start + UInt32.ofNat i) s

def ReadAsserts (buff : Nat → α) (num : UInt32) (c : Cache α) : Prop :=
  Along (readSector disk io start) (RoundAsserts disk io start) (readBegin start buff c)
      (List.range num.toNat) ∧
    let s := run (readSector disk io start) (readBegin start buff c) (List.range num.toNat)
    0 ≤ s.ret → MissesAssert disk io start (start + num) s

end

def CallAsserts (s : State α) : Call α → Prop
  | .read io buff start num => ReadAsserts s.disk io start buff num s.cache
  | .write _ _ _ _ _ => True
  | .ioctl _ _ _ _ => True

section

variable (disk : UInt32 → α) (io : UInt32 → UInt32 → Int) {start : UInt32}

theorem Scanning.asserts {i j : Nat} {s : ReadState α} (h : Scanning start i j s)
    (hi : i < 2 ^ 32) : MissesAssert disk io start (start + UInt32.ofNat i) s := by
  have hsize : (UInt32.ofNat (i - j)).toNat = i - j :=
    UInt32.toNat_ofNat_of_lt' (show i - j < 2 ^ 32 by omega)
  have hnum := h.miss_num
  have hoffset := h.miss_offset hi
  rw [h.missStart] at hnum hoffset
  intro _
  simp only [h.missStart, hnum, hoffset, PopulateAsserts, hsize, diskAccessRead_eq_fillBuff h.le hi]
  intro _
  refine (along_congr ?_ _).mpr (h.added disk hi).asserts
  intro k hk c
  rw [fillBuff_added (List.mem_range.mp hk)]

theorem scanning_readSector {i j : Nat} {s : ReadState α} (h : Scanning start i j s)
    (hi : i < 2 ^ 32) :
    RoundAsserts disk io start s i ∧
      (∀ {Q}, Kept disk Q → Q s.cache → Q (readSector disk io start s i).cache) ∧
      WellFormed (readSector disk io start s i).cache ∧
      ((readSector disk io start s i).ret < 0 ∨
        ∃ j', Scanning start (i + 1) j' (readSector disk io start s i)) := by
  refine ⟨fun _ _ _ => h.asserts disk io hi, ?_⟩
  have hret : ¬ s.ret < 0 := by
    rw [h.ret]
    decide
  simp only [readSector, if_neg hret]
  rcases hlookup : diskCacheLookup (start + UInt32.ofNat i) s.cache with _ | id
  · exact ⟨fun _ hc => hc, h.wellFormed, .inr ⟨j, h.miss hlookup⟩⟩
  · obtain ⟨hid, -⟩ := mem_of_lookup hlookup
    obtain ⟨hpopulate, hfail⟩ := h.populate disk io hi
    rcases Classical.em (i ≠ j ∧ io (start + UInt32.ofNat j) (UInt32.ofNat (i - j)) < 0)
      with ⟨hne, hneg⟩ | hok
    · rw [hfail hne hneg]
      simp only [if_pos hneg]
      exact ⟨fun _ hc => hc, h.wellFormed, .inl hneg⟩
    · have hadded := h.added disk hi
      rw [hpopulate fun hne => Int.not_lt.mp fun hneg => hok ⟨hne, hneg⟩]
      simp only [if_neg hret]
      have hmem := hadded.mem id hid
      refine ⟨fun hQ hc => hQ.bump hmem (hadded.keeps hQ hc), wellFormed_bump hadded.wellFormed hmem,
        .inr ⟨i + 1, ?_⟩⟩
      exact
        { ret := h.ret
          le := Nat.le_refl _
          missStart := by rw [UInt32.ofNat_add, ← UInt32.add_assoc]; rfl
          wellFormed := wellFormed_bump hadded.wellFormed hmem
          missed := fun k hk hk' => absurd hk' (Nat.not_lt.mpr hk) }

theorem readSector_failed {s : ReadState α} (hret : s.ret < 0) (i : Nat) :
    readSector disk io start s i = s := by
  rw [readSector, if_pos hret]

theorem run_failed {s : ReadState α} (hret : s.ret < 0) (positions : List Nat) :
    run (readSector disk io start) s positions = s := by
  induction positions with
  | nil => rfl
  | cons i positions ih => rw [run_cons, readSector_failed disk io hret, ih]

theorem along_failed {s : ReadState α} (hret : s.ret < 0) (positions : List Nat) :
    Along (readSector disk io start) (RoundAsserts disk io start) s positions := by
  induction positions with
  | nil => trivial
  | cons i positions ih =>
      rw [along_cons, readSector_failed disk io hret]
      exact ⟨fun h => absurd hret (Int.not_lt.mpr h), ih⟩

theorem scanning_run {i j n : Nat} {s : ReadState α} (h : Scanning start i j s)
    (hn : i + n < 2 ^ 32) :
    Along (readSector disk io start) (RoundAsserts disk io start) s (List.range' i n) ∧
      (∀ {Q}, Kept disk Q → Q s.cache →
        Q (run (readSector disk io start) s (List.range' i n)).cache) ∧
      WellFormed (run (readSector disk io start) s (List.range' i n)).cache ∧
      ((run (readSector disk io start) s (List.range' i n)).ret < 0 ∨
        ∃ j', Scanning start (i + n) j' (run (readSector disk io start) s (List.range' i n))) := by
  induction n generalizing i j s with
  | zero => exact ⟨trivial, fun _ hc => hc, h.wellFormed, .inr ⟨j, h⟩⟩
  | succ n ih =>
      obtain ⟨hround, hkeeps, hwellFormed, hnext⟩ :=
        scanning_readSector disk io h (by omega)
      rw [List.range'_succ, run_cons, along_cons]
      rcases hnext with hret | ⟨j', hnext⟩
      · rw [run_failed disk io hret]
        exact ⟨⟨hround, along_failed disk io hret _⟩, hkeeps, hwellFormed, .inl hret⟩
      · obtain ⟨hrest, hkeeps', hwellFormed', hlast⟩ := ih hnext (by omega)
        rw [Nat.add_right_comm] at hlast
        exact ⟨⟨hround, hrest⟩, fun hQ hc => hkeeps' hQ (hkeeps hQ hc), hwellFormed', hlast⟩

theorem diskCacheAccessRead_keeps (start : UInt32) {c : Cache α} (h : WellFormed c)
    (buff : Nat → α) (num : UInt32) :
    ReadAsserts disk io start buff num c ∧
      WellFormed (diskCacheAccessRead disk io start buff num c).2.2 ∧
      (∀ {Q}, Kept disk Q → Q c → Q (diskCacheAccessRead disk io start buff num c).2.2) := by
  have hnum : 0 + num.toNat < 2 ^ 32 := by
    have hlt := num.toNat_lt
    omega
  obtain ⟨hrounds, hkeeps, hwellFormed, hlast⟩ :=
    scanning_run disk io (Scanning.begin h start buff) hnum
  have hend : start + num = start + UInt32.ofNat num.toNat := by
    rw [UInt32.ofNat_toNat]
  simp only [ReadAsserts, diskCacheAccessRead, List.range_eq_range', hend]
  rw [Nat.zero_add] at hnum hlast
  generalize run (readSector disk io start) (readBegin start buff c) (List.range' 0 num.toNat) = s
    at hkeeps hwellFormed hlast ⊢
  rcases hlast with hret | ⟨j, hlast⟩
  · rw [if_pos hret]
    exact ⟨⟨hrounds, fun hok => absurd hret (Int.not_lt.mpr hok)⟩, hwellFormed, hkeeps⟩
  · have hret : ¬ s.ret < 0 := by
      rw [hlast.ret]
      decide
    rw [if_neg hret]
    refine ⟨⟨hrounds, fun _ => hlast.asserts disk io hnum⟩, ?_⟩
    obtain ⟨hpopulate, hfail⟩ := hlast.populate disk io hnum
    rcases Classical.em
      (num.toNat ≠ j ∧ io (start + UInt32.ofNat j) (UInt32.ofNat (num.toNat - j)) < 0)
      with ⟨hne, hneg⟩ | hok
    · rw [hfail hne hneg]
      exact ⟨hwellFormed, hkeeps⟩
    · have hadded := hlast.added disk hnum
      rw [hpopulate fun hne => Int.not_lt.mp fun hneg => hok ⟨hne, hneg⟩]
      exact ⟨hadded.wellFormed, fun hQ hc => hadded.keeps hQ (hkeeps hQ hc)⟩

end

theorem wellFormed_write {c : Cache α} (h : WellFormed c) (data : Nat → α) (start : UInt32)
    (positions : List Nat) :
    WellFormed (run (writeSector data start) c positions) ∧
      blocks (run (writeSector data start) c positions) = blocks c := by
  refine invariant_run_of_step
    (P := fun c' : Cache α => WellFormed c' ∧ blocks c' = blocks c) ?_ ⟨h, rfl⟩ positions
  rintro c' i ⟨hc', hblocks⟩
  obtain ⟨hfree, hlru⟩ := lists_writeSector data start c' i
  refine ⟨wellFormed_writeSector hc' data start i, ?_⟩
  rw [blocks, hfree, hlru]
  exact hblocks

theorem kept_blocks (disk : UInt32 → α) (ids : List Nat) :
    Kept disk fun c => (blocks c).Perm ids where
  add h _ hc := (blocks_add h _ _).trans hc
  bump hid hc := (blocks_bump hid).trans hc

/-- Every block of the slab is either free or once in the list, and no two entries
of the list hold the same sector. -/
structure Represented (capacity : Nat) (c : Cache α) : Prop where
  blocks : (c.free ++ c.lruList).Perm (List.range capacity)
  sectors : (c.lruList.map fun id => (c.entries id).sector).Nodup

theorem WellFormed.represented {capacity : Nat} {c : Cache α} (h : WellFormed c)
    (hblocks : (blocks c).Perm (List.range capacity)) : Represented capacity c where
  blocks := hblocks
  sectors := List.Nodup.map_on (fun id hid id' hid' => h.sector_inj id hid id' hid')
    h.nodup.of_append_right

theorem Represented.wellFormed {capacity : Nat} (hcapacity : 0 < capacity) {c : Cache α}
    (h : Represented capacity c) : WellFormed c where
  nodup := h.blocks.symm.nodup List.nodup_range
  nonempty := by
    have hlength := h.blocks.length_eq
    rw [List.length_append, List.length_range] at hlength
    omega
  sector_inj := List.inj_on_of_nodup_map h.sectors

theorem represented_initial (capacity : Nat) (entries : Nat → DiskCacheEntry α)
    (disk : UInt32 → α) : Represented capacity (initial capacity entries disk).cache where
  blocks := by
    rw [initial, List.append_nil]
  sectors := List.nodup_nil

theorem represented_step (sectorSize : UInt32) {capacity : Nat} (hcapacity : 0 < capacity)
    {s : State α} (h : Represented capacity s.cache) (call : Call α) :
    CallAsserts s call ∧ Represented capacity (step sectorSize s call).cache := by
  have hwellFormed := h.wellFormed hcapacity
  cases call with
  | read io buff start num =>
      obtain ⟨hasserts, hread, hkeeps⟩ :=
        diskCacheAccessRead_keeps s.disk io start hwellFormed buff num
      exact ⟨hasserts, hread.represented (hkeeps (kept_blocks s.disk _) h.blocks)⟩
  | write ret stored data start num =>
      refine ⟨trivial, ?_⟩
      simp only [step, diskCacheAccessWrite]
      split
      · exact h
      · obtain ⟨hwritten, hblocks⟩ :=
          wellFormed_write hwellFormed data start (List.range num.toNat)
        apply hwritten.represented
        rw [hblocks]
        exact h.blocks
  | ioctl cmd ret sizeRet size =>
      refine ⟨trivial, ?_⟩
      have hflush := (wellFormed_flush hwellFormed).represented
        ((blocks_flush s.cache).trans h.blocks)
      simp only [step, diskCacheAccessIoctl]
      split
      · exact h
      · cases cmd with
        | ctrlInit =>
            simp only
            split
            · exact h
            · exact hflush
        | ctrlDeinit => exact hflush
        | other cmd => exact h

/-- In every run, whatever the disk below returns, the assertions of
`disk_cache_add` hold and the cache stays well formed. -/
theorem represented_run (sectorSize : UInt32) {capacity : Nat} (hcapacity : 0 < capacity)
    (entries : Nat → DiskCacheEntry α) (disk : UInt32 → α) (calls : List (Call α)) :
    Along (step sectorSize) CallAsserts (initial capacity entries disk) calls ∧
      Represented capacity
        (run (step sectorSize) (initial capacity entries disk) calls).cache := by
  have hinitial := represented_initial capacity entries disk
  constructor
  · exact along_of_step_invariant (P := fun s : State α => Represented capacity s.cache)
      (fun s call h => (represented_step sectorSize hcapacity h call).2)
      (fun s call h => (represented_step sectorSize hcapacity h call).1) hinitial calls
  · exact invariant_run_of_step (P := fun s : State α => Represented capacity s.cache)
      (fun s call h => (represented_step sectorSize hcapacity h call).2) hinitial calls

/-- A cache of one sector, a read of three with the second one cached, and a read
that fails. -/
theorem represented_run_small :
    Along (step 512) CallAsserts (initial 1 (fun _ => ⟨0, 0⟩) UInt32.toNat)
        [.read (fun _ _ => 0) (fun _ => 7) 1 1, .read (fun _ _ => 0) (fun _ => 7) 0 3,
          .read (fun _ _ => -5) (fun _ => 7) 0 3] ∧
      Represented 1 (run (step 512) (initial 1 (fun _ => ⟨0, 0⟩) UInt32.toNat)
        [.read (fun _ _ => 0) (fun _ => 7) 1 1, .read (fun _ _ => 0) (fun _ => 7) 0 3,
          .read (fun _ _ => -5) (fun _ => 7) 0 3]).cache :=
  represented_run 512 (by decide) _ _ _

end ZeusLe.DiskCacheInvariant
